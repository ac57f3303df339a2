import TimePetri.Script.Clause
import TimePetri.Script.Tokens

namespace TimePetri.Script

inductive Owner where
  | transition (name : String)
  | place (name : String)
  deriving DecidableEq

-- How far the declaration of a place or transition has come.
inductive Stage where
  | named
  | labelled
  | measured
  | before
  | after
  deriving DecidableEq

-- Where a text stands between two tokens.
inductive Mode where
  | top
  | netName
  | transitionName
  | placeName
  | body (owner : Owner) (stage : Stage)
  | arc (owner : Owner) (stage : Stage) (name : Token)
  | upper (names : List String)
  | lower (first : List String) (order : Order) (second : List String)
  | noteName
  | noteLevel
  | noteText
  deriving DecidableEq

-- A token completes some clauses, and then leads on or breaks the text off.
structure Step where
  clauses : List Clause
  next : Except ParseError Mode

def moveTo (mode : Mode) : Step := ⟨[],.ok mode⟩

def emit (clause : Clause) (mode : Mode) : Step := ⟨[clause],.ok mode⟩

def stop (reason : ParseError) : Step := ⟨[],.error reason⟩

def Step.after (clause : Clause) (step : Step) : Step := { step with clauses := clause :: step.clauses }

def Step.ofExcept : Except ParseError Step → Step
  | .ok step => step
  | .error reason => stop reason

def expecting (kind : Kind) (expected : Expectation) (next : String → Step) (token : Token) : Step :=
  if token.kind = kind then next token.text else stop (.unexpected expected token)

def stepTop (token : Token) : Step :=
  match token.kind with
  | .eof => moveTo .top
  | .net => moveTo .netName
  | .transition => moveTo .transitionName
  | .place => moveTo .placeName
  | .priority => moveTo (.upper [])
  | .note => moveTo .noteName
  | _ => stop (.unexpected .declaration token)

def readWeight (token : Token) : Except ParseError Int64 := (readNumber token.text).mapError (.number token)

-- The parts of an interval token stand between blanks: bracket, number, number or
-- infinity, bracket. Runs of blanks count as one.
def fields (text : String) : List (List Char) := (text.toList.splitOn ' ').filter (· ≠ [])

def valueField? (digits : List Char) : Option Int64 := (naturalOf? digits).bind fun n => word? n

def leftBound (bracket : List Char) (v : Int64) : Bound := if bracket = ['['] then .closed v else .opened v

def rightBound (bracket : List Char) (v : Int64) : Bound := if bracket = [']'] then .closed v else .opened v

def bounds? (text : String) : Option (Bound × Bound) :=
  match fields text with
  | [opening,left,right,closing] => do
    let l ← valueField? left
    if right = ['w'] then return (leftBound opening l,.infinite)
    return (leftBound opening l,rightBound closing (← valueField? right))
  | _ => none

def readInterval (token : Token) (transition : String) : Except ParseError Interval :=
  match bounds? token.text with
  | none => .error (.lexical token)
  | some (left,right) => (Interval.make left right).mapError (.interval token transition)

def Stage.arcs (stage : Stage) : Stage := if stage = .after then .after else .before

-- A token that has its place in a declaration moves it on. Any other token ends
-- the declaration and has to start the next one.
def stepTransition (name : String) (stage : Stage) (token : Token) : Step :=
  match token.kind with
  | .label =>
    if stage = .named then emit (.transitionLabel name token.text) (.body (.transition name) .labelled)
    else stop (.unexpected .transitionLabel token)
  | .interval =>
    if stage = .named ∨ stage = .labelled then
      .ofExcept do
        return emit (.interval name (← readInterval token name) token) (.body (.transition name) .measured)
    else stop (.unexpected .transitionInterval token)
  | .arrow =>
    if stage = .after then stop (.unexpected .transitionArrow token)
    else moveTo (.body (.transition name) .after)
  | .ident => moveTo (.arc (.transition name) stage.arcs token)
  | _ => stepTop token

def stepPlace (name : String) (stage : Stage) (token : Token) : Step :=
  match token.kind with
  | .label =>
    if stage = .named then emit (.placeLabel name token.text) (.body (.place name) .labelled)
    else stop (.unexpected .placeLabel token)
  | .marking =>
    if stage = .named ∨ stage = .labelled then
      .ofExcept do
        return emit (.marking name (← readWeight token) token) (.body (.place name) .measured)
    else stop (.unexpected .placeMarking token)
  | .arrow =>
    if stage = .after then stop (.unexpected .placeArrow token)
    else moveTo (.body (.place name) .after)
  | .ident => moveTo (.arc (.place name) stage.arcs token)
  | _ => stepTop token

def stepBody : Owner → Stage → Token → Step
  | .transition name => stepTransition name
  | .place name => stepPlace name

inductive Decoration where
  | plain
  | read
  | inhibitor
  deriving DecidableEq

def decoration? : Kind → Option Decoration
  | .star => some .plain
  | .read => some .read
  | .inhibitor => some .inhibitor
  | _ => none

def inputUse : Decoration → Use
  | .plain => .consume
  | .read => .test
  | .inhibitor => .inhibit

-- Tokens flow along the arrow. What flows into the transition can be tested or
-- inhibit it, what flows out of it can only be produced.
def arcUse (owner : Owner) (stage : Stage) (decoration : Decoration) : Except Expectation Use :=
  match owner, stage with
  | .transition _, .after => if decoration = .plain then .ok .produce else .error .transitionOutput
  | .transition _, _ => .ok (inputUse decoration)
  | .place _, .after => .ok (inputUse decoration)
  | .place _, _ => if decoration = .plain then .ok .produce else .error .placeInput

def arcOf (owner : Owner) (name : String) (use : Use) (weight : Int64) (token : Token) : Clause :=
  match owner with
  | .transition transition => .arc name transition use weight token
  | .place place => .arc place name use weight token

-- A decoration belongs to the name before it. Without one the weight is one, and
-- the token is looked at again behind the arc.
def stepArc (owner : Owner) (stage : Stage) (name token : Token) : Step :=
  match decoration? token.kind with
  | some decoration =>
    .ofExcept do
      let weight ← readWeight token
      let use ← (arcUse owner stage decoration).mapError (.unexpected · token)
      return emit (arcOf owner name.text use weight token) (.body owner stage)
  | none =>
    .ofExcept do
      let use ← (arcUse owner stage .plain).mapError (.unexpected · name)
      return (stepBody owner stage token).after (arcOf owner name.text use 1 name)

def stepUpper (names : List String) (token : Token) : Step :=
  match token.kind with
  | .ident => emit (.mention token) (.upper (names ++ [token.text]))
  | .gt => operator .above
  | .lt => operator .below
  | _ => stop (.unexpected .transitionOrOperator token)
where
  operator (order : Order) : Step :=
    if names = [] then stop (.unexpected .transitionOrOperator token) else moveTo (.lower names order [])

def stepLower (first : List String) (order : Order) (second : List String) (token : Token) : Step :=
  if token.kind = .ident then emit (.mention token) (.lower first order (second ++ [token.text]))
  else if second = [] then stop (.unexpected .transitionAfterOperator token)
  else (stepTop token).after (.priority first order second)

def step (mode : Mode) (token : Token) : Step :=
  if token.kind = .illegal then stop (.lexical token)
  else
    match mode with
    | .top => stepTop token
    | .netName => expecting .ident .netName (fun name => emit (.netName name) .top) token
    | .transitionName =>
      expecting .ident .transitionName (fun name => emit (.transition name) (.body (.transition name) .named)) token
    | .placeName => expecting .ident .placeName (fun name => emit (.place name) (.body (.place name) .named)) token
    | .body owner stage => stepBody owner stage token
    | .arc owner stage name => stepArc owner stage name token
    | .upper names => stepUpper names token
    | .lower first order second => stepLower first order second token
    | .noteName => expecting .ident .noteName (fun _ => moveTo .noteLevel) token
    | .noteLevel => expecting .int .noteLevel (fun _ => moveTo .noteText) token
    | .noteText => expecting .ident .noteText (fun text => emit (.note text) .top) token

structure Reading where
  clauses : List Clause
  ending : Option ParseError
  deriving DecidableEq

def readingFrom : Mode → List Token → Reading
  | _, [] => ⟨[],none⟩
  | mode, token :: rest =>
    let here := step mode token
    match here.next with
    | .error reason => ⟨here.clauses,some reason⟩
    | .ok next =>
      let later := readingFrom next rest
      ⟨here.clauses ++ later.clauses,later.ending⟩

def readingOf (text : String) : Reading := readingFrom .top (tokens text)

end TimePetri.Script
