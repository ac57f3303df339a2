import Mathlib.Algebra.Order.Ring.Int
import TimePetri.Script.Grammar

namespace TimePetri.Script

-- A text as the list of its declarations, each with its parts as they are written.
-- A name of an arc list may be decorated by a weight.
structure Link where
  name : String
  mark : Option (Decoration × String)
  deriving DecidableEq

-- What follows the name of a place or transition. Its measure is the interval of a
-- transition or the marking of a place, and an arrow may stand without arcs.
structure Body where
  label : Option String
  measure : Option String
  before : List Link
  after : Option (List Link)
  deriving DecidableEq

inductive Declaration where
  | net (name : String)
  | node (owner : Owner) (body : Body)
  | priority (first : List String) (order : Order) (second : List String)
  | note (name level text : String)
  deriving DecidableEq

def sign (kind : Kind) (text : String) : Token := ⟨kind,text,.start⟩

def Decoration.kind : Decoration → Kind
  | .plain => .star
  | .read => .read
  | .inhibitor => .inhibitor

def markToken (mark : Decoration × String) : Token := sign mark.1.kind mark.2

def Link.tokens (link : Link) : List Token := sign .ident link.name :: link.mark.toList.map markToken

def Owner.opening : Owner → List Token
  | .transition name => [sign .transition "tr",sign .ident name]
  | .place name => [sign .place "pl",sign .ident name]

def Owner.measureKind : Owner → Kind
  | .transition _ => .interval
  | .place _ => .marking

def Order.token : Order → Token
  | .above => sign .gt ">"
  | .below => sign .lt "<"

def linkTokens (links : List Link) : List Token := links.flatMap Link.tokens

def arrowTokens : Option (List Link) → List Token
  | none => []
  | some links => sign .arrow "->" :: linkTokens links

def Body.tokens (owner : Owner) (body : Body) : List Token :=
  body.label.toList.map (sign .label) ++ body.measure.toList.map (sign owner.measureKind) ++
    linkTokens body.before ++ arrowTokens body.after

def Declaration.tokens : Declaration → List Token
  | .net name => [sign .net "net",sign .ident name]
  | .node owner body => owner.opening ++ body.tokens owner
  | .priority first order second =>
    sign .priority "pr" :: (first.map (sign .ident) ++ order.token :: second.map (sign .ident))
  | .note name level text => [sign .note "nt",sign .ident name,sign .int level,sign .ident text]

def Body.links (body : Body) : List Link := body.before ++ body.after.getD []

def Declaration.placeNames : Declaration → List String
  | .node (.transition _) body => body.links.map (·.name)
  | .node (.place place) _ => [place]
  | _ => []

def Declaration.transitionNames : Declaration → List String
  | .node (.transition transition) _ => [transition]
  | .node (.place _) body => body.links.map (·.name)
  | .priority first _ second => first ++ second
  | _ => []

-- The exact value of a number, whether or not it is one that fits.
def numeralValue (text : String) : Nat :=
  digitsValue (splitMultiplier text.toList).1 * (splitMultiplier text.toList).2

def Link.weight (link : Link) : Nat := link.mark.elim 1 fun mark => numeralValue mark.2

def Link.inputUse (link : Link) : Use := Script.inputUse (link.mark.elim .plain (·.1))

-- An arc between a place and a transition, whichever of the two declares it.
structure Edge where
  place : String
  transition : String
  use : Use
  weight : Nat
  deriving DecidableEq

-- Tokens flow along the arrow: into a transition from the places before it, and into
-- a place from the transitions before it.
def Declaration.edges : Declaration → List Edge
  | .node (.transition transition) body =>
    body.before.map (fun link => ⟨link.name,transition,link.inputUse,link.weight⟩) ++
      (body.after.getD []).map fun link => ⟨link.name,transition,.produce,link.weight⟩
  | .node (.place place) body =>
    body.before.map (fun link => ⟨place,link.name,.produce,link.weight⟩) ++
      (body.after.getD []).map fun link => ⟨place,link.name,link.inputUse,link.weight⟩
  | _ => []

def edgesBetween (declarations : List Declaration) (place transition : String) : List Edge :=
  (declarations.flatMap Declaration.edges).filter fun edge => edge.place = place && edge.transition = transition

def weightsOf (use : Use) (edges : List Edge) : List Nat := (edges.filter (·.use = use)).map (·.weight)

def leastOf (weights : List Nat) : Nat := (weights.filter (· ≠ 0)).min?.getD 0

-- A reading arc raises what is asked for to its weight, and an ordinary input adds to it.
def Edge.ask (asked : Nat) (edge : Edge) : Nat :=
  match edge.use with
  | .test => max asked edge.weight
  | .consume => asked + edge.weight
  | _ => asked

def askedBy (edges : List Edge) : Nat := edges.foldl Edge.ask 0

def Declaration.tokensAt (place : String) : Declaration → Nat
  | .node (.place other) body => if other = place then body.measure.elim 0 numeralValue else 0
  | _ => 0

def initialTokens (declarations : List Declaration) (place : String) : Nat :=
  (declarations.map (Declaration.tokensAt place)).sum

end TimePetri.Script
