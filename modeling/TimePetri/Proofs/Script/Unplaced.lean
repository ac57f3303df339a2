import TimePetri.Proofs.Checked
import TimePetri.Script.Parse

namespace TimePetri

namespace Script

def Token.unplaced (token : Token) : Token := { token with position := .start }

def ParseError.unplaced : ParseError → ParseError
  | .lexical token => .lexical token.unplaced
  | .unexpected expected token => .unexpected expected token.unplaced
  | .number token cause => .number token.unplaced cause
  | .interval token name cause => .interval token.unplaced name cause
  | .undeclared token => .undeclared token.unplaced
  | .unreadable cause => .unreadable cause
  | .fault cause => .fault cause

def Clause.unplaced : Clause → Clause
  | .interval name time token => .interval name time token.unplaced
  | .marking name count token => .marking name count token.unplaced
  | .arc p t use weight token => .arc p t use weight token.unplaced
  | .mention token => .mention token.unplaced
  | clause => clause

def Mode.unplaced : Mode → Mode
  | .arc owner stage name => .arc owner stage name.unplaced
  | mode => mode

def Step.unplaced (taken : Step) : Step :=
  ⟨taken.clauses.map Clause.unplaced,(taken.next.map Mode.unplaced).mapError ParseError.unplaced⟩

def Reading.unplaced (reading : Reading) : Reading :=
  ⟨reading.clauses.map Clause.unplaced,reading.ending.map ParseError.unplaced⟩

@[simp] theorem unplaced_kind (token : Token) : token.unplaced.kind = token.kind := rfl

@[simp] theorem unplaced_text (token : Token) : token.unplaced.text = token.text := rfl

@[simp] theorem after_unplaced (clause : Clause) (taken : Step) :
    (taken.after clause).unplaced = taken.unplaced.after clause.unplaced := rfl

theorem expecting_unplaced (kind : Kind) (expected : Expectation) (next : String → Step) (token : Token)
    (same : ∀ text, (next text).unplaced = next text) :
    expecting kind expected next token.unplaced = (expecting kind expected next token).unplaced := by
  unfold expecting
  rw [unplaced_kind]
  split
  · exact (same token.text).symm
  · rfl

theorem stepTop_unplaced (token : Token) : stepTop token.unplaced = (stepTop token).unplaced := by
  unfold stepTop
  rw [unplaced_kind]
  split <;> rfl

theorem readWeight_unplaced (token : Token) :
    readWeight token.unplaced = (readWeight token).mapError ParseError.unplaced := by
  unfold readWeight
  rw [unplaced_text]
  cases readNumber token.text <;> rfl

theorem readInterval_unplaced (token : Token) (name : String) :
    readInterval token.unplaced name = (readInterval token name).mapError ParseError.unplaced := by
  unfold readInterval
  rw [unplaced_text]
  cases bounds? token.text with
  | none => rfl
  | some bounds =>
    obtain ⟨left,right⟩ := bounds
    dsimp only
    cases Interval.make left right <;> rfl

theorem stepTransition_unplaced (name : String) (stage : Stage) (token : Token) :
    stepTransition name stage token.unplaced = (stepTransition name stage token).unplaced := by
  unfold stepTransition
  rw [unplaced_kind]
  split
  · split <;> rfl
  · split
    · rw [readInterval_unplaced]
      cases readInterval token name <;> rfl
    · rfl
  · split <;> rfl
  · rfl
  · exact stepTop_unplaced token

theorem stepPlace_unplaced (name : String) (stage : Stage) (token : Token) :
    stepPlace name stage token.unplaced = (stepPlace name stage token).unplaced := by
  unfold stepPlace
  rw [unplaced_kind]
  split
  · split <;> rfl
  · split
    · rw [readWeight_unplaced]
      cases readWeight token <;> rfl
    · rfl
  · split <;> rfl
  · rfl
  · exact stepTop_unplaced token

theorem stepBody_unplaced (owner : Owner) (stage : Stage) (token : Token) :
    stepBody owner stage token.unplaced = (stepBody owner stage token).unplaced := by
  cases owner with
  | transition name => exact stepTransition_unplaced name stage token
  | place name => exact stepPlace_unplaced name stage token

theorem arcOf_unplaced (owner : Owner) (name : String) (use : Use) (weight : Int64) (token : Token) :
    arcOf owner name use weight token.unplaced = (arcOf owner name use weight token).unplaced := by
  cases owner <;> rfl

theorem stepArc_unplaced (owner : Owner) (stage : Stage) (name token : Token) :
    stepArc owner stage name.unplaced token.unplaced = (stepArc owner stage name token).unplaced := by
  unfold stepArc
  rw [unplaced_kind]
  split
  · next decoration _ =>
    rw [readWeight_unplaced]
    cases readWeight token with
    | error reason => rfl
    | ok weight =>
      cases arcUse owner stage decoration with
      | error expected => rfl
      | ok use =>
        refine congrArg (emit · _) ?_
        exact arcOf_unplaced _ _ _ _ _
  · cases arcUse owner stage .plain with
    | error expected => rfl
    | ok use =>
      change (stepBody owner stage token.unplaced).after _ = Step.unplaced ((stepBody owner stage token).after _)
      rw [stepBody_unplaced,unplaced_text,arcOf_unplaced,after_unplaced]

theorem stepUpper_unplaced (names : List String) (token : Token) :
    stepUpper names token.unplaced = (stepUpper names token).unplaced := by
  unfold stepUpper
  rw [unplaced_kind]
  split
  · rfl
  · unfold stepUpper.operator
    split <;> rfl
  · unfold stepUpper.operator
    split <;> rfl
  · rfl

theorem stepLower_unplaced (first : List String) (order : Order) (second : List String) (token : Token) :
    stepLower first order second token.unplaced = (stepLower first order second token).unplaced := by
  unfold stepLower
  rw [unplaced_kind]
  split
  · rfl
  · split
    · rfl
    · rw [stepTop_unplaced]
      rfl

theorem step_unplaced (mode : Mode) (token : Token) :
    step mode.unplaced token.unplaced = (step mode token).unplaced := by
  unfold step
  rw [unplaced_kind]
  split
  · rfl
  · cases mode with
    | top => exact stepTop_unplaced token
    | netName => exact expecting_unplaced _ _ _ _ fun _ => rfl
    | transitionName => exact expecting_unplaced _ _ _ _ fun _ => rfl
    | placeName => exact expecting_unplaced _ _ _ _ fun _ => rfl
    | body owner stage => exact stepBody_unplaced owner stage token
    | arc owner stage name => exact stepArc_unplaced owner stage name token
    | upper names => exact stepUpper_unplaced names token
    | lower first order second => exact stepLower_unplaced first order second token
    | noteName => exact expecting_unplaced _ _ _ _ fun _ => rfl
    | noteLevel => exact expecting_unplaced _ _ _ _ fun _ => rfl
    | noteText => exact expecting_unplaced _ _ _ _ fun _ => rfl

theorem readingFrom_unplaced (mode : Mode) (tokens : List Token) :
    readingFrom mode.unplaced (tokens.map Token.unplaced) = (readingFrom mode tokens).unplaced := by
  induction tokens generalizing mode with
  | nil => rfl
  | cons token rest ih =>
    rw [List.map_cons]
    unfold readingFrom
    dsimp only
    rw [step_unplaced]
    cases leads : (step mode token).next with
    | error reason => simp [Step.unplaced,Reading.unplaced,leads,Except.map]
    | ok next => simp [Step.unplaced,Reading.unplaced,leads,Except.map,ih]

end Script

open Script

namespace Net

theorem overflowAt_unplaced (token : Token) (result : Except Fault α) :
    result.mapError (overflowAt token.unplaced) = (result.mapError (overflowAt token)).mapError ParseError.unplaced := by
  cases result with
  | ok a => rfl
  | error fault => cases fault <;> rfl

theorem narrow_unplaced (net : Net) (t : Nat) (name : String) (interval : Interval) (token : Token) :
    net.narrow t name interval token.unplaced = (net.narrow t name interval token).mapError ParseError.unplaced := by
  unfold narrow
  cases fetch net.time t with
  | error fault => rfl
  | ok current => cases intersected : current.intersection interval <;> simp [intersected,ParseError.unplaced]

theorem apply_mention (strict : Bool) (net : Net) (token : Token) :
    net.apply strict (.mention token) =
      if strict && (net.transitionIndex? token.text).isNone then .error (.undeclared token)
      else .ok (net.ensureTransition token.text).2 := rfl

theorem apply_unplaced (strict : Bool) (net : Net) (clause : Clause) :
    net.apply strict clause.unplaced = (net.apply strict clause).mapError ParseError.unplaced := by
  cases clause with
  | interval name interval token => exact narrow_unplaced _ _ _ _ _
  | marking name count token =>
    unfold apply Clause.unplaced
    dsimp only
    rw [overflowAt_unplaced]
    cases ((net.ensurePlace name).2.initial.addAt (net.ensurePlace name).1 count).mapError (overflowAt token) <;> rfl
  | arc place transition use weight token => exact overflowAt_unplaced _ _
  | mention token =>
    change net.apply strict (.mention token.unplaced) = _
    rw [apply_mention,apply_mention,unplaced_text]
    split <;> rfl
  | priority first order second => cases order <;> rfl
  | _ => rfl

theorem applyAll_unplaced (strict : Bool) (net : Net) (clauses : List Clause) :
    (net.applyAll strict (clauses.map Clause.unplaced)).value =
      (net.applyAll strict clauses).value.mapError ParseError.unplaced := by
  induction clauses generalizing net with
  | nil => rfl
  | cons clause rest ih =>
    rw [List.map_cons]
    unfold applyAll
    rw [apply_unplaced]
    cases net.apply strict clause with
    | error reason => rfl
    | ok next => exact ih next

theorem ofReading_unplaced (strict : Bool) (reading : Reading) :
    (ofReading strict reading.unplaced).value = (ofReading strict reading).value.mapError ParseError.unplaced := by
  unfold ofReading Logged.andThen
  dsimp only [Reading.unplaced]
  rw [applyAll_unplaced]
  cases (empty.applyAll strict reading.clauses).value with
  | error reason => rfl
  | ok net => cases reading.ending <;> rfl

end Net

end TimePetri
