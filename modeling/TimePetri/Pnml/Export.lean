import TimePetri.Net
import TimePetri.Pnml.Document

namespace TimePetri.Pnml

inductive ExportError where
  | inhibitor (transition : String)
  | write (failure : WriteFailure)
  | fault (cause : Fault)
  deriving DecidableEq

def ExportError.message : ExportError → String
  | .inhibitor transition => "cannot export net with inhibitor arcs; see transition " ++ transition
  | .write failure => "unable to write PNML: " ++ failure.message
  | .fault cause => cause.message

def ExportError.ofWrite : WriteError → ExportError
  | .refused failure => .write failure
  | .fault cause => .fault cause

def placesOf (net : Net) : Array Place :=
  (net.places.zip net.placeLabels).mapIdx fun place named => ⟨named.1,named.2,net.initial.get place⟩

def readArcsEvent (name : String) : Event :=
  ⟨.warn,"Read arcs of transition " ++ name ++ " are exported as input and output arcs."⟩

-- The inputs of a transition are its guard, and its outputs are the guard with the
-- change of marking. A guard that asks for more than is taken reads tokens, which
-- the document can only say by taking them and putting them back.
def exportTransition (net : Net) (transition : Nat) : Logged (Except Fault Transition) :=
  let rows : Except Fault (Marking × Marking) := do
    let guard ← fetch net.guard transition
    return (guard,← (← fetch net.pre transition).neg)
  match rows with
  | .error fault => .quiet (.error fault)
  | .ok (guard,taken) =>
    match fetch net.transitions transition with
    | .error fault => .quiet (.error fault)
    | .ok name =>
      ⟨if guard = taken then [] else [readArcsEvent name],do
        let after ← guard.add (← fetch net.delta transition)
        let label ← fetch net.transitionLabels transition
        return ⟨name,label,guard.toPairs,after.toPairs⟩⟩

def exportAll (net : Net) : List Nat → Logged (Except Fault (List Transition))
  | [] => .quiet (.ok [])
  | transition :: rest =>
    (exportTransition net transition).andThen fun
      | .error fault => .quiet (.error fault)
      | .ok first =>
        let later := exportAll net rest
        ⟨later.events,later.value.map (first :: ·)⟩

def inhibited (net : Net) : Except Fault (Option String) := do
  match net.cap.findIdx? (!·.isEmpty) with
  | none => return none
  | some transition => return some (← fetch net.transitions transition)

def exportNet (net : Net) : Logged (Except ExportError Document) :=
  match inhibited net with
  | .error fault => .quiet (.error (.fault fault))
  | .ok (some transition) => .quiet (.error (.inhibitor transition))
  | .ok none =>
    let transitions := exportAll net (List.range net.transitions.size)
    ⟨transitions.events,(transitions.value.map (⟨net.name,placesOf net,·⟩)).mapError .fault⟩

def writeNet (net : Net) (sink : Sink) : Logged (Except ExportError String) :=
  (exportNet net).andThen fun
    | .error reason => .quiet (.error reason)
    | .ok document => .quiet ((document.write sink).mapError .ofWrite)

end TimePetri.Pnml
