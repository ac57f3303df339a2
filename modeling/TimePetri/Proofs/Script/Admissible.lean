import TimePetri.Proofs.Script.Numbers
import TimePetri.Proofs.Script.Spelling

namespace TimePetri.Script

def Clause.Admissible : Clause → Prop
  | .netName name => IsName name.toList
  | .transition name => IsName name.toList
  | .transitionLabel name label => IsName name.toList ∧ IsLabel label.toList
  | .interval name time _ => IsName name.toList ∧ time.Declared
  | .place name => IsName name.toList
  | .placeLabel name label => IsName name.toList ∧ IsLabel label.toList
  | .marking name count _ => IsName name.toList ∧ 0 ≤ count.toInt
  | .arc p t _ weight _ => IsName p.toList ∧ IsName t.toList ∧ 0 ≤ weight.toInt
  | .mention token => IsName token.text.toList
  | .priority _ _ _ => True
  | .note _ => True

-- The numbers alone: what the counts of a net depend on.
def Clause.Measured : Clause → Prop
  | .interval _ time _ => time.Declared
  | .marking _ count _ => 0 ≤ count.toInt
  | .arc _ _ _ weight _ => 0 ≤ weight.toInt
  | _ => True

theorem Clause.Admissible.measured {clause : Clause} (admissible : clause.Admissible) : clause.Measured := by
  cases clause with
  | interval name time token => exact admissible.2
  | marking name count token => exact admissible.2
  | arc p t use weight token => exact admissible.2.2
  | _ => trivial

def Owner.name : Owner → String
  | .transition name => name
  | .place name => name

def Mode.Spelled : Mode → Prop
  | .body owner _ => IsName owner.name.toList
  | .arc owner _ name => IsName owner.name.toList ∧ IsName name.text.toList
  | _ => True

-- A text is refused for what it says, never for a fault of the reading itself.
def ParseError.Genuine : ParseError → Prop
  | .fault _ => False
  | _ => True

def Genuinely (result : Except ParseError α) : Prop := ∀ reason, result = .error reason → reason.Genuine

theorem readWeight_genuine (token : Token) : Genuinely (readWeight token) := fails_mapError _ _ fun _ => trivial

theorem readInterval_genuine (token : Token) (name : String) : Genuinely (readInterval token name) := by
  unfold readInterval
  split
  · exact fails_error trivial
  · exact fails_mapError _ _ fun _ => trivial

structure Step.Admissible (taken : Step) : Prop where
  clauses : ∀ clause ∈ taken.clauses, clause.Admissible
  next : ∀ mode, taken.next = .ok mode → mode.Spelled
  refusal : Genuinely taken.next

variable {taken : Step} {mode : Mode} {clause : Clause} {token : Token} {owner : Owner}

theorem none_admissible : ∀ clause ∈ ([] : List Clause), clause.Admissible := by simp

theorem moveTo_admissible (spelled : mode.Spelled) : (moveTo mode).Admissible :=
  ⟨none_admissible,fun next same => by cases same; exact spelled,fails_ok mode⟩

theorem emit_admissible (admissible : clause.Admissible) (spelled : mode.Spelled) : (emit clause mode).Admissible :=
  ⟨fun other member => by cases List.mem_singleton.mp member; exact admissible,fun next same => by cases same; exact spelled,
    fails_ok mode⟩

theorem stop_admissible (reason : ParseError) (genuine : reason.Genuine) : (stop reason).Admissible :=
  ⟨none_admissible,(fun next same => by cases same),fails_error genuine⟩

theorem after_admissible (admissible : clause.Admissible) (rest : taken.Admissible) :
    (taken.after clause).Admissible := by
  refine ⟨fun other member => ?_,rest.next,rest.refusal⟩
  rcases List.mem_cons.mp member with rfl | later
  · exact admissible
  · exact rest.clauses other later

theorem ofExcept_admissible (result : Except ParseError Step) (genuine : Genuinely result)
    (all : ∀ step, result = .ok step → step.Admissible) : (Step.ofExcept result).Admissible := by
  cases result with
  | ok step => exact all step rfl
  | error reason => exact stop_admissible reason (genuine reason rfl)

theorem expecting_admissible (kind : Kind) (expected : Expectation) (next : String → Step)
    (all : token.kind = kind → (next token.text).Admissible) : (expecting kind expected next token).Admissible := by
  unfold expecting
  split
  · next same => exact all same
  · exact stop_admissible _ trivial

theorem stepTop_admissible (token : Token) : (stepTop token).Admissible := by
  unfold stepTop
  split
  case h_7 => exact stop_admissible _ trivial
  all_goals exact moveTo_admissible trivial

theorem stepTransition_admissible (name : String) (stage : Stage) (isName : IsName name.toList)
    (spelled : token.Spelled) :
    (stepTransition name stage token).Admissible := by
  unfold stepTransition
  split
  · next kind =>
    split
    · exact emit_admissible ⟨isName,spelled.label kind⟩ isName
    · exact stop_admissible _ trivial
  · split
    · refine ofExcept_admissible _ (fails_bind (readInterval_genuine _ _) fun _ _ => fails_ok _) fun step result => ?_
      obtain ⟨interval,read,same⟩ := bind_ok.mp result
      cases same
      exact emit_admissible ⟨isName,readInterval_declared _ _ _ read⟩ isName
    · exact stop_admissible _ trivial
  · split
    · exact stop_admissible _ trivial
    · exact moveTo_admissible isName
  · next kind => exact moveTo_admissible ⟨isName,spelled.name kind⟩
  · exact stepTop_admissible token

theorem stepPlace_admissible (name : String) (stage : Stage) (isName : IsName name.toList) (spelled : token.Spelled) :
    (stepPlace name stage token).Admissible := by
  unfold stepPlace
  split
  · next kind =>
    split
    · exact emit_admissible ⟨isName,spelled.label kind⟩ isName
    · exact stop_admissible _ trivial
  · split
    · refine ofExcept_admissible _ (fails_bind (readWeight_genuine _) fun _ _ => fails_ok _) fun step result => ?_
      obtain ⟨count,weight,same⟩ := bind_ok.mp result
      cases same
      exact emit_admissible ⟨isName,readWeight_nonneg weight⟩ isName
    · exact stop_admissible _ trivial
  · split
    · exact stop_admissible _ trivial
    · exact moveTo_admissible isName
  · next kind => exact moveTo_admissible ⟨isName,spelled.name kind⟩
  · exact stepTop_admissible token

theorem stepBody_admissible (owner : Owner) (stage : Stage) (isName : IsName owner.name.toList)
    (spelled : token.Spelled) :
    (stepBody owner stage token).Admissible := by
  cases owner with
  | transition name => exact stepTransition_admissible name stage isName spelled
  | place name => exact stepPlace_admissible name stage isName spelled

theorem arcOf_admissible (owner : Owner) (name : String) (use : Use) (weight : Int64) (token : Token)
    (isOwner : IsName owner.name.toList) (isName : IsName name.toList) (nonneg : 0 ≤ weight.toInt) :
    (arcOf owner name use weight token).Admissible := by
  cases owner with
  | transition transition => exact ⟨isName,isOwner,nonneg⟩
  | place place => exact ⟨isOwner,isName,nonneg⟩

theorem stepArc_admissible (owner : Owner) (stage : Stage) (name : Token) (isOwner : IsName owner.name.toList)
    (isName : IsName name.text.toList) (spelled : token.Spelled) : (stepArc owner stage name token).Admissible := by
  have fits : ∀ decoration place, Genuinely ((arcUse owner stage decoration).mapError (.unexpected · place)) :=
    fun _ _ => fails_mapError _ _ fun _ => trivial
  unfold stepArc
  split
  · refine ofExcept_admissible _ ?_ fun step result => ?_
    · exact fails_bind (readWeight_genuine token) fun _ _ => fails_bind (fits _ _) fun _ _ => fails_ok _
    obtain ⟨weight,read,rest⟩ := bind_ok.mp result
    obtain ⟨use,_,same⟩ := bind_ok.mp rest
    cases same
    exact emit_admissible (arcOf_admissible _ _ _ _ _ isOwner isName (readWeight_nonneg read)) isOwner
  · refine ofExcept_admissible _ (fails_bind (fits _ _) fun _ _ => fails_ok _) fun step result => ?_
    obtain ⟨use,_,same⟩ := bind_ok.mp result
    cases same
    exact after_admissible (arcOf_admissible _ _ _ _ _ isOwner isName (by decide)) (stepBody_admissible owner stage isOwner spelled)

theorem stepUpper_admissible (names : List String) (spelled : token.Spelled) :
    (stepUpper names token).Admissible := by
  have operator : ∀ order, (stepUpper.operator names token order).Admissible := by
    intro order
    unfold stepUpper.operator
    split
    · exact stop_admissible _ trivial
    · exact moveTo_admissible trivial
  unfold stepUpper
  split
  · next kind => exact emit_admissible (spelled.name kind) trivial
  · exact operator .above
  · exact operator .below
  · exact stop_admissible _ trivial

theorem stepLower_admissible (first : List String) (order : Order) (second : List String) (spelled : token.Spelled) :
    (stepLower first order second token).Admissible := by
  unfold stepLower
  split
  · next kind => exact emit_admissible (spelled.name kind) trivial
  · split
    · exact stop_admissible _ trivial
    · exact after_admissible trivial (stepTop_admissible token)

theorem step_admissible (mode : Mode) (token : Token) (ready : mode.Spelled) (spelled : token.Spelled) :
    (step mode token).Admissible := by
  unfold Script.step
  split
  · exact stop_admissible _ trivial
  · cases mode with
    | top => exact stepTop_admissible token
    | netName => exact expecting_admissible _ _ _ fun kind => emit_admissible (spelled.name kind) trivial
    | transitionName =>
      exact expecting_admissible _ _ _ fun kind => emit_admissible (spelled.name kind) (spelled.name kind)
    | placeName => exact expecting_admissible _ _ _ fun kind => emit_admissible (spelled.name kind) (spelled.name kind)
    | body owner stage => exact stepBody_admissible owner stage ready spelled
    | arc owner stage name => exact stepArc_admissible owner stage name ready.1 ready.2 spelled
    | upper names => exact stepUpper_admissible names spelled
    | lower first order second => exact stepLower_admissible first order second spelled
    | noteName => exact expecting_admissible _ _ _ fun _ => moveTo_admissible trivial
    | noteLevel => exact expecting_admissible _ _ _ fun _ => moveTo_admissible trivial
    | noteText => exact expecting_admissible _ _ _ fun _ => emit_admissible trivial trivial

structure Reading.Admissible (reading : Reading) : Prop where
  clauses : ∀ clause ∈ reading.clauses, clause.Admissible
  ending : ∀ reason, reading.ending = some reason → reason.Genuine

theorem readingFrom_admissible (mode : Mode) (tokens : List Token) (ready : mode.Spelled)
    (spelled : ∀ token ∈ tokens, token.Spelled) : (readingFrom mode tokens).Admissible := by
  induction tokens generalizing mode with
  | nil => exact ⟨none_admissible,fun reason ends => by cases ends⟩
  | cons token rest ih =>
    have here := step_admissible mode token ready (spelled token (by simp))
    unfold readingFrom
    dsimp only
    split
    · next reason stops =>
      refine ⟨here.clauses,fun other same => ?_⟩
      cases same
      exact here.refusal reason stops
    · next next leads =>
      have later := ih next (here.next next leads) fun other inRest => spelled other (List.mem_cons_of_mem _ inRest)
      refine ⟨fun clause member => ?_,later.ending⟩
      rcases List.mem_append.mp member with now | after
      · exact here.clauses clause now
      · exact later.clauses clause after

theorem readingOf_admissible (text : String) : (readingOf text).Admissible :=
  readingFrom_admissible .top _ trivial (tokensFrom_spelled _ _)

end TimePetri.Script
