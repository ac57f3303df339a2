import TimePetri.Net
import TimePetri.Script.Grammar

namespace TimePetri

open Script

namespace Net

def addTo (rows : Array Marking) (row place : Nat) (change : Int64) : Except Fault (Array Marking) := do
  return rows.setIfInBounds row (← (← fetch rows row).addAt place change)

def updateIn (rows : Array Marking) (row : Nat) (change : Marking → Marking) : Except Fault (Array Marking) := do
  return rows.setIfInBounds row (change (← fetch rows row))

-- What an arc adds to the tables. A consuming arc is felt three times: in the
-- change of marking, in the tokens taken and in the guard. Reading arcs ask for
-- the greatest of their weights, inhibitor arcs cap by the least.
def connect (net : Net) (transition place : Nat) (use : Use) (weight : Int64) : Except Fault Net := do
  match use with
  | .consume =>
    let taken ← negWord weight
    let delta ← addTo net.delta transition place taken
    let pre ← addTo net.pre transition place taken
    let guard ← addTo net.guard transition place weight
    return { net with delta, pre, guard }
  | .produce => return { net with delta := ← addTo net.delta transition place weight }
  | .test => return { net with guard := ← updateIn net.guard transition (·.raise place weight) }
  | .inhibit => return { net with cap := ← updateIn net.cap transition (·.lower place weight) }

-- A count without room for more is an error of the text, at the token that says so.
def overflowAt (token : Token) : Fault → ParseError
  | .overflow _ => .number token (.overflow token.text)
  | cause => .fault cause

def narrow (net : Net) (transition : Nat) (name : String) (interval : Interval) (token : Token) :
    Except ParseError Net := do
  let current ← (fetch net.time transition).mapError .fault
  let narrowed ← (current.intersection interval).mapError (.interval token name)
  return { net with time := net.time.setIfInBounds transition narrowed.normalize }

def numberAll (net : Net) (names : List String) : List Nat :=
  names.foldl (fun numbers name => (net.transitionIndex? name).elim numbers (Priority.insert numbers)) []

def prioritize (net : Net) (upper lower : List Nat) : Net :=
  { net with prio := upper.foldl (fun prio t => prio.modify t (Priority.union · lower)) net.prio }

-- The effect of one clause. Names get their numbers when they are first met, in
-- strict reading only outside of priorities.
def apply (strict : Bool) (net : Net) : Clause → Except ParseError Net
  | .netName name => .ok { net with name }
  | .transition name => .ok (net.ensureTransition name).2
  | .transitionLabel name label =>
    let (t,net) := net.ensureTransition name
    .ok { net with transitionLabels := net.transitionLabels.setIfInBounds t label }
  | .interval name interval token =>
    let (t,net) := net.ensureTransition name
    net.narrow t name interval token
  | .place name => .ok (net.ensurePlace name).2
  | .placeLabel name label =>
    let (p,net) := net.ensurePlace name
    .ok { net with placeLabels := net.placeLabels.setIfInBounds p label }
  | .marking name count token => do
    let (p,net) := net.ensurePlace name
    return { net with initial := ← (net.initial.addAt p count).mapError (overflowAt token) }
  | .arc place transition use weight token =>
    let (p,net) := net.ensurePlace place
    let (t,net) := net.ensureTransition transition
    (net.connect t p use weight).mapError (overflowAt token)
  | .mention token =>
    if strict && (net.transitionIndex? token.text).isNone then .error (.undeclared token)
    else .ok (net.ensureTransition token.text).2
  | .priority first .above second => .ok (net.prioritize (net.numberAll first) (net.numberAll second))
  | .priority first .below second => .ok (net.prioritize (net.numberAll second) (net.numberAll first))
  | .note _ => .ok net

def listText (numbers : List Nat) : String := "[" ++ ", ".intercalate (numbers.map toString) ++ "]"

def trace (net : Net) : Clause → List Event
  | .netName name => [⟨.trace,"net " ++ name⟩]
  | .transition name => [⟨.trace,"tr " ++ name⟩]
  | .place name => [⟨.trace,"pl " ++ name⟩]
  | .note text => [⟨.trace,"nt " ++ text⟩]
  | .priority first order second =>
    [⟨.trace,s!"pr {listText (net.numberAll first)} {order.text} {listText (net.numberAll second)}"⟩]
  | _ => []

def applyAll (strict : Bool) (net : Net) : List Clause → Logged (Except ParseError Net)
  | [] => .quiet (.ok net)
  | clause :: rest =>
    match net.apply strict clause with
    | .error reason => .quiet (.error reason)
    | .ok next =>
      let later := applyAll strict next rest
      ⟨next.trace clause ++ later.events,later.value⟩

def parsedEvent (net : Net) : Event :=
  ⟨.debug,s!"Parsed net {Text.quoted net.name}: {net.places.size} places, {net.transitions.size} transitions."⟩

-- A clause that does not fit comes before the reason for which the text breaks off
-- behind it.
def ofReading (strict : Bool) (reading : Reading) : Logged (Except ParseError Net) :=
  (applyAll strict .empty reading.clauses).andThen fun
    | .error reason => .quiet (.error reason)
    | .ok net =>
      match reading.ending with
      | some reason => .quiet (.error reason)
      | none => ⟨[net.parsedEvent],.ok net⟩

-- Strict reading refuses priorities of transitions that were not mentioned before.
def parse (strict : Bool) (text : String) : Logged (Except ParseError Net) := ofReading strict (readingOf text)

-- A source of bytes may end the reading itself when its limit is met. That comes
-- before anything the bytes say.
def parseBytes (limit : Option Nat) (bytes : List UInt8) : Logged (Except ParseError Net) :=
  if limit.any (· ≤ bytes.length) then .quiet (.error (.unreadable .limit))
  else
    match String.fromUTF8? ⟨bytes.toArray⟩ with
    | none => .quiet (.error (.unreadable .notUtf8))
    | some text => parse false text

end Net

end TimePetri
