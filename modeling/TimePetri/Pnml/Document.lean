import TimePetri.Output
import TimePetri.Pnml.Xml

namespace TimePetri.Pnml

structure Place where
  name : String
  label : String
  initial : Int64
  deriving DecidableEq

structure Transition where
  name : String
  label : String
  inputs : List (Nat × Int64)
  outputs : List (Nat × Int64)
  deriving DecidableEq

structure Document where
  name : String
  places : Array Place
  transitions : List Transition
  deriving DecidableEq

def displayName (name label : String) : String := if label.isEmpty then name else name ++ ": " ++ label

-- Places and transitions may share a name, their identifiers may not.
def placeId (name : String) : String := "pl_" ++ name

def transitionId (name : String) : String := "tr_" ++ name

def Place.element (place : Place) : Element :=
  .node "place" [⟨"id",placeId place.name⟩]
    (labelled "name" (displayName place.name place.label) ::
      if place.initial = 0 then [] else [labelled "initialMarking" (decimal place.initial)])

def Transition.element (transition : Transition) : Element :=
  .node "transition" [⟨"id",transitionId transition.name⟩]
    [labelled "name" (displayName transition.name transition.label)]

def arcElement (id source target : String) (weight : Int64) : Element :=
  .node "arc" [⟨"id",id⟩,⟨"source",source⟩,⟨"target",target⟩]
    (if weight = 1 then [] else [labelled "inscription" (decimal weight)])

namespace Document

def netId (document : Document) : String := if document.name.isEmpty then "net" else document.name

def inputArc (document : Document) (transition : Transition) (arc : Nat × Int64) : Except Fault Element := do
  let place ← fetch document.places arc.1
  return arcElement ("p2t-" ++ place.name ++ "-" ++ transition.name) (placeId place.name)
    (transitionId transition.name) arc.2

def outputArc (document : Document) (transition : Transition) (arc : Nat × Int64) : Except Fault Element := do
  let place ← fetch document.places arc.1
  return arcElement ("t2p-" ++ transition.name ++ "-" ++ place.name) (transitionId transition.name)
    (placeId place.name) arc.2

def arcElements (document : Document) (transition : Transition) : List (Except Fault Element) :=
  transition.inputs.map (document.inputArc transition) ++ transition.outputs.map (document.outputArc transition)

-- What stands on the page of a net: its places, its transitions, and then the arcs
-- of each transition, the inputs before the outputs.
def elements (document : Document) : List (Except Fault Element) :=
  document.places.toList.map (fun place => .ok place.element) ++
    document.transitions.map (fun transition => .ok transition.element) ++
    document.transitions.flatMap document.arcElements

def pnmlNamespace : String := "http://www.pnml.org/version-2009/grammar/pnml"

def ptnetType : String := "http://www.pnml.org/version-2009/grammar/ptnet"

-- The declaration comes first and the rest is laid out like any other elements.
def opening (document : Document) : List String :=
  [declaration,openTag "pnml" [⟨"xmlns",pnmlNamespace⟩],
    indented 1 (openTag "net" [⟨"id",document.netId⟩,⟨"type",ptnetType⟩])] ++
    (labelled "name" document.netId).lines 2 ++ [indented 2 (openTag "page" [⟨"id","page"⟩])]

def closing : List String := [indented 2 (closeTag "page"),indented 1 (closeTag "net"),closeTag "pnml"]

-- The writer of quick-xml ends a line when the next one starts, so the last one is not ended.
def continued (lines : List String) : String := String.join (lines.map ("\n" ++ ·))

def pieces (document : Document) : List Piece :=
  .ok ("\n".intercalate document.opening) ::
    document.elements.map (fun element => return continued ((← element).lines 3)) ++ [.ok (continued closing)]

def render (document : Document) : Written := written document.pieces

def write (document : Document) (sink : Sink) : Except WriteError String := sink.accept document.render

end Document

end TimePetri.Pnml
