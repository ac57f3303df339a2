import TimePetri.Net

namespace TimePetri

-- Values of an exchange format. Numbers written with a fraction or an exponent are
-- kept apart, since no count is ever read from one.
inductive Json where
  | null
  | bool (value : Bool)
  | int (value : Int)
  | real (text : String)
  | str (text : String)
  | arr (items : List Json)
  | obj (fields : List (String × Json))

namespace Json

def str? : Json → Option String
  | str text => some text
  | _ => none

def arr? : Json → Option (List Json)
  | arr items => some items
  | _ => none

def word? : Json → Option Int64
  | int n => TimePetri.word? n
  | _ => none

def indexLimit : Int := 18446744073709551616

def index? : Json → Option Nat
  | int n => if 0 ≤ n ∧ n < indexLimit then some n.toNat else none
  | _ => none

def list? (read : Json → Option α) (json : Json) : Option (List α) := do
  (← json.arr?).mapM read

def array? (read : Json → Option α) (json : Json) : Option (Array α) := List.toArray <$> json.list? read

-- A record is an object that has all its fields, whatever else it has, or the list
-- of exactly its fields in order.
def record? (names : List String) : Json → Option (List Json)
  | obj fields => names.mapM fun name => fields.lookup name
  | arr items => if items.length = names.length then some items else none
  | _ => none

end Json

namespace Bound

def ofJson? : Json → Option Bound
  | .str "Infinite" => some infinite
  | .obj [("Infinite",.null)] => some infinite
  | .obj [("Closed",value)] => closed <$> value.word?
  | .obj [("Open",value)] => opened <$> value.word?
  | _ => none

def toJson : Bound → Json
  | infinite => .str "Infinite"
  | closed v => .obj [("Closed",.int v.toInt)]
  | opened v => .obj [("Open",.int v.toInt)]

end Bound

namespace Interval

def ofJson? (json : Json) : Option Interval :=
  match json.record? ["left","right"] with
  | some [left,right] => return ⟨← Bound.ofJson? left,← Bound.ofJson? right⟩
  | _ => none

def toJson (i : Interval) : Json := .obj [("left",i.left.toJson),("right",i.right.toJson)]

end Interval

namespace Atom

def ofJson? (json : Json) : Option Atom :=
  match json.record? ["place","mult"] with
  | some [place,mult] => return ⟨← place.index?,← mult.word?⟩
  | _ => none

def toJson (a : Atom) : Json := .obj [("mult",.int a.mult.toInt),("place",.int a.place)]

end Atom

namespace Marking

def ofJson? (json : Json) : Option Marking := do
  (ofAtoms (← json.list? Atom.ofJson?)).toOption

def toJson (m : Marking) : Json := .arr (m.atoms.map Atom.toJson)

end Marking

namespace Net

def fieldNames : List String :=
  ["name","places","place_labels","transitions","transition_labels","time","cond","inhib","pre","delta",
    "initial","prio"]

-- The tables of a net are read one by one and not compared with each other.
def ofJson? (json : Json) : Option Net :=
  match json.record? fieldNames with
  | some [name,places,placeLabels,transitions,transitionLabels,time,guard,cap,pre,delta,initial,prio] => do
    return {
      name := ← name.str?
      places := ← places.array? Json.str?
      placeLabels := ← placeLabels.array? Json.str?
      transitions := ← transitions.array? Json.str?
      transitionLabels := ← transitionLabels.array? Json.str?
      time := ← time.array? Interval.ofJson?
      guard := ← guard.array? Marking.ofJson?
      cap := ← cap.array? Marking.ofJson?
      pre := ← pre.array? Marking.ofJson?
      delta := ← delta.array? Marking.ofJson?
      initial := ← Marking.ofJson? initial
      prio := ← prio.array? fun row => row.list? Json.index? }
  | _ => none

def tableJson (write : α → Json) (rows : Array α) : Json := .arr (rows.toList.map write)

def toJson (net : Net) : Json :=
  .obj [
    ("cond",tableJson Marking.toJson net.guard),
    ("delta",tableJson Marking.toJson net.delta),
    ("inhib",tableJson Marking.toJson net.cap),
    ("initial",net.initial.toJson),
    ("name",.str net.name),
    ("place_labels",tableJson .str net.placeLabels),
    ("places",tableJson .str net.places),
    ("pre",tableJson Marking.toJson net.pre),
    ("prio",tableJson (fun row => .arr (row.map fun (t : Nat) => .int t)) net.prio),
    ("time",tableJson Interval.toJson net.time),
    ("transition_labels",tableJson .str net.transitionLabels),
    ("transitions",tableJson .str net.transitions)]

end Net

end TimePetri
