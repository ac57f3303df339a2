import TimePetri.Interval.Basic
import TimePetri.Marking.Basic
import TimePetri.Priority

namespace TimePetri

-- Places and transitions are numbered in the order in which they first occur. A
-- table has a row for each of them: for a transition the tokens that a place has
-- to hold (guard), the number it has to stay below (cap), the tokens taken, as
-- negative counts (pre), and the change of marking (delta).
structure Net where
  name : String
  places : Array String
  placeLabels : Array String
  transitions : Array String
  transitionLabels : Array String
  time : Array Interval
  guard : Array Marking
  cap : Array Marking
  pre : Array Marking
  delta : Array Marking
  initial : Marking
  prio : Relation
  deriving DecidableEq

namespace Net

def empty : Net := ⟨"",#[],#[],#[],#[],#[],#[],#[],#[],#[],.empty,#[]⟩

def placeIndex? (net : Net) (name : String) : Option Nat := net.places.idxOf? name

def transitionIndex? (net : Net) (name : String) : Option Nat := net.transitions.idxOf? name

def addPlace (net : Net) (name : String) : Net :=
  { net with places := net.places.push name, placeLabels := net.placeLabels.push "" }

def addTransition (net : Net) (name : String) : Net :=
  { net with
    transitions := net.transitions.push name
    transitionLabels := net.transitionLabels.push ""
    time := net.time.push .unconstrained
    guard := net.guard.push .empty
    cap := net.cap.push .empty
    pre := net.pre.push .empty
    delta := net.delta.push .empty
    prio := net.prio.push [] }

def ensurePlace (net : Net) (name : String) : Nat × Net :=
  match net.placeIndex? name with
  | some place => (place,net)
  | none => (net.places.size,net.addPlace name)

def ensureTransition (net : Net) (name : String) : Nat × Net :=
  match net.transitionIndex? name with
  | some transition => (transition,net)
  | none => (net.transitions.size,net.addTransition name)

def meets (guard m : Marking) : Bool := guard.atoms.all fun a => a.mult ≤ m.get a.place

def staysBelow (cap m : Marking) : Bool := cap.atoms.all fun a => m.get a.place < a.mult

-- Time and priorities play no part in being enabled. The caps are looked up only
-- when the guard holds.
def isEnabled (net : Net) (m : Marking) (transition : Nat) : Except Fault Bool := do
  let guard ← fetch net.guard transition
  if meets guard m then
    let cap ← fetch net.cap transition
    return staysBelow cap m
  else return false

def enabled (net : Net) (m : Marking) : Except Fault (List Nat) :=
  (List.range net.transitions.size).filterM (net.isEnabled m)

def fire (net : Net) (m : Marking) (transition : Nat) : Except Fault Marking := do
  m.add (← fetch net.delta transition)

def countedText (name : String) (mult : Int64) : String :=
  if mult = 1 then name else name ++ "*" ++ decimal mult

def markingText (net : Net) (m : Marking) : String :=
  " ".intercalate (m.atoms.map fun a => countedText (net.places[a.place]?.getD "?") a.mult)

def closePriorities (net : Net) : Net × Priority.Closure :=
  let closure := Priority.close net.prio net.transitions
  ({ net with prio := closure.relation },closure)

end Net

end TimePetri
