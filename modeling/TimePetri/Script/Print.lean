import TimePetri.Net
import TimePetri.Output

namespace TimePetri.Net

-- The counts that an arc line of a place is made of: the cap, what is read beyond
-- the tokens taken, what is taken and what is put back.
structure Flow where
  place : Nat
  cap : Int64
  read : Int64
  consumed : Int64
  produced : Int64

def flowAt (guard cap pre delta : Marking) (place : Nat) : Except Fault Flow := do
  let consumed ← negWord (pre.get place)
  let read ← subWords (guard.get place) consumed
  let produced ← addWords (delta.get place) consumed
  return ⟨place,cap.get place,read,consumed,produced⟩

def decorated (count : Int64) (text : String) : List String := if count = 0 then [] else [text]

-- An inhibitor arc stands before a read arc and that before the tokens taken, so
-- that reading the arcs again builds the same guard.
def Flow.inputs (flow : Flow) (name : String) : List String :=
  decorated flow.cap (name ++ "?-" ++ decimal flow.cap) ++
    decorated flow.read (name ++ "?" ++ decimal flow.read) ++
    decorated flow.consumed (countedText name flow.consumed)

def Flow.outputs (flow : Flow) (name : String) : List String :=
  decorated flow.produced (countedText name flow.produced)

def touched (markings : List Marking) : List Nat :=
  markings.foldl (fun places m => Priority.union places m.places) []

structure ArcLists where
  inputs : List String
  outputs : List String

def arcsAt (net : Net) (guard cap pre delta : Marking) (place : Nat) : Except Fault ArcLists := do
  let name ← fetch net.places place
  let flow ← flowAt guard cap pre delta place
  return ⟨flow.inputs name,flow.outputs name⟩

def arcLists (net : Net) (transition : Nat) : Except Fault ArcLists := do
  let guard ← fetch net.guard transition
  let cap ← fetch net.cap transition
  let pre ← fetch net.pre transition
  let delta ← fetch net.delta transition
  let lists ← (touched [guard,cap,pre,delta]).mapM (net.arcsAt guard cap pre delta)
  return ⟨lists.flatMap (·.inputs),lists.flatMap (·.outputs)⟩

def spaced (words : List String) : String := String.join (words.map (" " ++ ·))

def arcsText (net : Net) (transition : Nat) : Piece := do
  let lists ← net.arcLists transition
  return spaced lists.inputs ++ " ->" ++ spaced lists.outputs ++ "\n"

def labelText (labels : Array String) (index : Nat) : Piece := do
  let label ← fetch labels index
  return if label.isEmpty then "" else " : " ++ label

def timeText (net : Net) (transition : Nat) : Piece := do
  let interval ← fetch net.time transition
  return if interval.isTrivial then "" else " " ++ interval.text

def markedText (count : Int64) : String := if count = 0 then "\n" else " (" ++ decimal count ++ ")\n"

def headPieces (net : Net) : List Piece :=
  [.ok ("#\n# net " ++ net.name ++ "\n" ++
      s!"# {net.places.size} places, {net.transitions.size} transitions\n#\n\n"),
    .ok (if net.name.isEmpty then "" else "net " ++ net.name ++ "\n")]

def placePieces (net : Net) (name : String) (place : Nat) : List Piece :=
  [.ok ("pl " ++ name),labelText net.placeLabels place,.ok (markedText (net.initial.get place))]

def transitionPieces (net : Net) (name : String) (transition : Nat) : List Piece :=
  [.ok ("tr " ++ name),labelText net.transitionLabels transition,net.timeText transition,
    net.arcsText transition]

def priorityPieces (net : Net) (lower : List Nat) (transition : Nat) : List Piece :=
  if lower.isEmpty then []
  else
    [do
      let name ← fetch net.transitions transition
      let names ← lower.mapM (fetch net.transitions)
      return "pr " ++ name ++ " > " ++ " ".intercalate names ++ "\n"]

def eachPiece (rows : Array α) (pieces : α → Nat → List Piece) : List Piece :=
  rows.toList.zipIdx.flatMap fun (row,index) => pieces row index

-- Places come before transitions, in the order of their numbers, so that reading
-- the text again numbers them alike.
def pieces (net : Net) : List Piece :=
  net.headPieces ++ eachPiece net.places net.placePieces ++
    eachPiece net.transitions net.transitionPieces ++ eachPiece net.prio net.priorityPieces

def render (net : Net) : Written := written net.pieces

def write (net : Net) (limit : Option Nat) : Except WriteError String :=
  Sink.accept ⟨limit,false⟩ net.render

end TimePetri.Net
