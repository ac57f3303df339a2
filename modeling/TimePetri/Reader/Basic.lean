import TimePetri.Script.Declaration
import TimePetri.Script.Parse

namespace TimePetri

open Script

inductive Panic where
  | pushedTwice
  | fault (cause : Fault)
  deriving DecidableEq

inductive Halt where
  | refused (reason : ParseError) (scanned : Nat)
  | panicked (cause : Panic)
  deriving DecidableEq

-- The reading of a text as it is carried out, on one net and with a place for one token
-- that is given back. Names are looked up in lists of their own, tables are asked for
-- their rows, and what is added was tested before.
structure Reader where
  rest : List Char
  here : Position
  pending : Option Token
  scanned : Nat
  placeNumbers : List (String × Nat)
  transitionNumbers : List (String × Nat)
  net : Net

inductive Turn (σ β : Type) where
  | again (state : σ) (r : Reader)
  | done (answer : β) (r : Reader)

def Script.Owner.other (name : String) : Owner → Owner
  | .transition _ => .place name
  | .place _ => .transition name

namespace Reader

def start (text : String) : Reader := ⟨text.toList,.start,none,0,[],[],.empty⟩

def take (r : Reader) : Token × Reader :=
  let lexeme := lex r.rest
  let start := r.here.after lexeme.lead
  (⟨lexeme.kind,String.ofList lexeme.shown,start⟩,
    { r with rest := lexeme.rest, here := start.after lexeme.body, scanned := r.scanned + 1 })

def pop (r : Reader) : Token × Reader :=
  match r.pending with
  | some token => (token,{ r with pending := none })
  | none => r.take

def refuse (r : Reader) (reason : ParseError) : Except Halt α := .error (.refused reason r.scanned)

def accept (r : Reader) (result : Except ParseError α) : Except Halt α := result.mapError (.refused · r.scanned)

-- What is carried out without a test of its own.
def trusted (result : Except Fault α) : Except Halt α := result.mapError fun cause => .panicked (.fault cause)

def scan (r : Reader) : Except Halt (Token × Reader) :=
  let (token,r) := r.pop
  if token.kind = .illegal then r.refuse (.lexical token) else .ok (token,r)

def unscan (r : Reader) (token : Token) : Except Halt Reader :=
  if r.pending.isSome then .error (.panicked .pushedTwice) else .ok { r with pending := some token }

def expect (r : Reader) (kind : Kind) (expected : Expectation) : Except Halt (Token × Reader) := do
  let (token,r) ← r.scan
  if token.kind = kind then return (token,r) else r.refuse (.unexpected expected token)

def store (table : Array α) (index : Nat) (value : α) : Except Fault (Array α) :=
  if index < table.size then .ok (table.setIfInBounds index value) else .error (.outOfBounds table.size index)

def placeNumber (r : Reader) (name : String) : Nat × Reader :=
  match r.placeNumbers.lookup name with
  | some place => (place,r)
  | none =>
    (r.net.places.size,
      { r with net := r.net.addPlace name, placeNumbers := (name,r.net.places.size) :: r.placeNumbers })

def transitionNumber (r : Reader) (name : String) : Nat × Reader :=
  match r.transitionNumbers.lookup name with
  | some transition => (transition,r)
  | none =>
    (r.net.transitions.size,
      { r with
        net := r.net.addTransition name
        transitionNumbers := (name,r.net.transitions.size) :: r.transitionNumbers })

def number (r : Reader) : Owner → Nat × Reader
  | .transition name => r.transitionNumber name
  | .place name => r.placeNumber name

-- The sum is tried first and refused if it does not fit. Then it is carried out.
def addTested (r : Reader) (token : Token) (m : Marking) (place : Nat) (change : Int64) : Except Halt Marking :=
  match addWords (m.get place) change with
  | .error _ => r.refuse (.number token (.overflow token.text))
  | .ok _ => trusted (m.addAt place change)

def addInRow (r : Reader) (token : Token) (rows : Array Marking) (row place : Nat) (change : Int64) :
    Except Halt (Array Marking) := do
  let m ← trusted (fetch rows row)
  return rows.setIfInBounds row (← r.addTested token m place change)

def connect (r : Reader) (transition place : Nat) (use : Use) (weight : Int64) (token : Token) :
    Except Halt Reader := do
  match use with
  | .consume =>
    let taken ← trusted (negWord weight)
    let delta ← r.addInRow token r.net.delta transition place taken
    let pre ← r.addInRow token r.net.pre transition place taken
    let guard ← r.addInRow token r.net.guard transition place weight
    return { r with net := { r.net with delta, pre, guard } }
  | .produce =>
    let delta ← r.addInRow token r.net.delta transition place weight
    return { r with net := { r.net with delta } }
  | .test =>
    let guard ← trusted (Net.updateIn r.net.guard transition (·.raise place weight))
    return { r with net := { r.net with guard } }
  | .inhibit =>
    let cap ← trusted (Net.updateIn r.net.cap transition (·.lower place weight))
    return { r with net := { r.net with cap } }

def scanArc (r : Reader) : Except Halt ((Decoration × Int64 × Option Token) × Reader) := do
  let (token,r) ← r.scan
  match decoration? token.kind with
  | some decoration => return ((decoration,← r.accept (readWeight token),some token),r)
  | none => return ((.plain,1,none),← r.unscan token)

-- Places and transitions are declared alike. They differ in the tables that they fill,
-- in what their measure is and in what is said of a part that is out of place.
def labelExpected : Owner → Expectation
  | .transition _ => .transitionLabel
  | .place _ => .placeLabel

def measureExpected : Owner → Expectation
  | .transition _ => .transitionInterval
  | .place _ => .placeMarking

def arrowExpected : Owner → Expectation
  | .transition _ => .transitionArrow
  | .place _ => .placeArrow

def label (r : Reader) (owner : Owner) (number : Nat) (text : String) : Except Halt Reader :=
  match owner with
  | .transition _ => do
    let transitionLabels ← trusted (store r.net.transitionLabels number text)
    return { r with net := { r.net with transitionLabels } }
  | .place _ => do
    let placeLabels ← trusted (store r.net.placeLabels number text)
    return { r with net := { r.net with placeLabels } }

def measure (r : Reader) (owner : Owner) (number : Nat) (token : Token) : Except Halt Reader :=
  match owner with
  | .transition name => do
    let declared ← r.accept (readInterval token name)
    let current ← trusted (fetch r.net.time number)
    let narrowed ← r.accept ((current.intersection declared).mapError (.interval token name))
    return { r with net := { r.net with time := r.net.time.setIfInBounds number narrowed.normalize } }
  | .place _ => do
    let count ← r.accept (readWeight token)
    let initial ← r.addTested token r.net.initial number count
    return { r with net := { r.net with initial } }

def connectEnds (r : Reader) (owner : Owner) (number other : Nat) (use : Use) (weight : Int64) (token : Token) :
    Except Halt Reader :=
  match owner with
  | .transition _ => r.connect number other use weight token
  | .place _ => r.connect other number use weight token

def arc (r : Reader) (owner : Owner) (number : Nat) (stage : Stage) (name : Token) : Except Halt Reader := do
  let (other,r) := r.number (owner.other name.text)
  let ((decoration,weight,mark),r) ← r.scanArc
  let use ← r.accept ((arcUse owner stage decoration).mapError (.unexpected · (mark.getD name)))
  r.connectEnds owner number other use weight (mark.getD name)

def part (owner : Owner) (number : Nat) (stage : Stage) (r : Reader) : Except Halt (Turn Stage Unit) := do
  let (token,r) ← r.scan
  if token.kind = .label then
    if stage = .named then return .again .labelled (← r.label owner number token.text)
    else r.refuse (.unexpected (labelExpected owner) token)
  else if token.kind = owner.measureKind then
    if stage = .named ∨ stage = .labelled then return .again .measured (← r.measure owner number token)
    else r.refuse (.unexpected (measureExpected owner) token)
  else if token.kind = .arrow then
    if stage = .after then r.refuse (.unexpected (arrowExpected owner) token) else return .again .after r
  else if token.kind = .ident then
    return .again stage.arcs (← r.arc owner number stage.arcs token)
  else return .done () (← r.unscan token)

def priorityNumber (r : Reader) (strict : Bool) (token : Token) : Except Halt (Nat × Reader) :=
  if strict && (r.transitionNumbers.lookup token.text).isNone then r.refuse (.undeclared token)
  else .ok (r.transitionNumber token.text)

def upperPart (strict : Bool) (first : List Nat) (r : Reader) : Except Halt (Turn (List Nat) (List Nat × Order)) := do
  let (token,r) ← r.scan
  match token.kind with
  | .ident =>
    let (transition,r) ← r.priorityNumber strict token
    return .again (Priority.insert first transition) r
  | .gt => operator token r .above
  | .lt => operator token r .below
  | _ => r.refuse (.unexpected .transitionOrOperator token)
where
  operator (token : Token) (r : Reader) (order : Order) : Except Halt (Turn (List Nat) (List Nat × Order)) :=
    if first = [] then r.refuse (.unexpected .transitionOrOperator token) else .ok (.done (first,order) r)

def lowerPart (strict : Bool) (second : List Nat) (r : Reader) : Except Halt (Turn (List Nat) (List Nat)) := do
  let (token,r) ← r.scan
  if token.kind = .ident then
    let (transition,r) ← r.priorityNumber strict token
    return .again (Priority.insert second transition) r
  else if second = [] then r.refuse (.unexpected .transitionAfterOperator token)
  else return .done second (← r.unscan token)

def prioritize (r : Reader) (upper lower : List Nat) : Except Halt Reader := do
  let prio ← trusted (upper.foldlM raised r.net.prio)
  return { r with net := { r.net with prio } }
where
  raised (prio : Relation) (transition : Nat) : Except Fault Relation := do
    store prio transition (Priority.union (← fetch prio transition) lower)

def rank (r : Reader) (first : List Nat) (order : Order) (second : List Nat) : Except Halt Reader :=
  match order with
  | .above => r.prioritize first second
  | .below => r.prioritize second first

def note (r : Reader) : Except Halt Reader := do
  let (_,r) ← r.expect .ident .noteName
  let (_,r) ← r.expect .int .noteLevel
  let (_,r) ← r.expect .ident .noteText
  return r

end Reader

end TimePetri
