import TimePetri.Proofs.Checked
import TimePetri.Proofs.Script.Declarations

namespace TimePetri.Script

inductive Passes : Mode → List Token → List Clause → Mode → Prop where
  | none (mode : Mode) : Passes mode [] [] mode
  | one {mode next last : Mode} {token : Token} {rest : List Token} {clauses later : List Clause}
      (taken : step mode token = ⟨clauses,.ok next⟩) (further : Passes next rest later last) :
      Passes mode (token :: rest) (clauses ++ later) last

def Kind.Counts (kind : Kind) : Prop := kind ∈ [.star,.read,.inhibitor,.marking]

inductive Token.Refused (token : Token) : ParseError → Prop where
  | illegal (kind : token.kind = .illegal) : Refused token (.lexical token)
  | interval (kind : token.kind = .interval) : Refused token (.lexical token)
  | unexpected (expected : Expectation) : Refused token (.unexpected expected token)
  | number (cause : NumberError) (counts : token.kind.Counts) (unread : readNumber token.text = .error cause) :
    Refused token (.number token cause)
  | bounds (name : String) (cause : IntervalError) : Refused token (.interval token name cause)

-- The lists of a priority are the one place where a name is only mentioned.
def Mode.Ranks : Mode → Prop
  | .upper _ => True
  | .lower _ _ _ => True
  | _ => False

def Clause.mentioned? : Clause → Option Token
  | .mention token => some token
  | _ => none

structure Step.Plain (token : Token) (taken : Step) : Prop where
  refusal : FailsAs token.Refused taken.next
  silent : ∀ clause ∈ taken.clauses, clause.mentioned? = none

variable {mode next last : Mode} {token : Token} {taken : Step} {clause : Clause} {clauses : List Clause}
  {front rest : List Token} {owner : Owner} {stage : Stage} {reason : ParseError}

theorem moveTo_plain (mode : Mode) : (moveTo mode).Plain token := ⟨fails_ok mode,by simp [moveTo]⟩

theorem emit_plain (mode : Mode) (silent : clause.mentioned? = none) : (emit clause mode).Plain token :=
  ⟨fails_ok mode,fun other member => by cases List.mem_singleton.mp member; exact silent⟩

theorem stop_plain (refused : token.Refused reason) : (stop reason).Plain token := ⟨fails_error refused,by simp [stop]⟩

theorem after_plain (silent : clause.mentioned? = none) (rest : taken.Plain token) : (taken.after clause).Plain token := by
  refine ⟨rest.refusal,fun other member => ?_⟩
  rcases List.mem_cons.mp member with rfl | later
  · exact silent
  · exact rest.silent other later

theorem ofExcept_plain (result : Except ParseError Step) (fails : FailsAs token.Refused result)
    (all : ∀ step, result = .ok step → step.Plain token) : (Step.ofExcept result).Plain token := by
  cases result with
  | ok step => exact all step rfl
  | error reason => exact stop_plain (fails reason rfl)

theorem expecting_plain (kind : Kind) (expected : Expectation) (next : String → Step)
    (all : token.kind = kind → (next token.text).Plain token) : (expecting kind expected next token).Plain token := by
  unfold expecting
  split
  · next same => exact all same
  · exact stop_plain (.unexpected _)

theorem readWeight_refused (counts : token.kind.Counts) : FailsAs token.Refused (readWeight token) := by
  unfold readWeight
  cases read : readNumber token.text with
  | ok weight => exact fails_ok weight
  | error cause => exact fails_error (.number cause counts read)

theorem readInterval_refused (name : String) (kind : token.kind = .interval) :
    FailsAs token.Refused (readInterval token name) := by
  unfold readInterval
  split
  · exact fails_error (.interval kind)
  · exact fails_mapError _ _ (.bounds name)

theorem decoration_counts {decoration : Decoration} (decorated : decoration? token.kind = some decoration) :
    token.kind.Counts := by
  unfold decoration? at decorated
  split at decorated <;> simp_all [Kind.Counts]

theorem arcUse_plain (owner : Owner) (stage : Stage) : ∃ use, arcUse owner stage .plain = .ok use := by
  cases owner <;> cases stage <;> exact ⟨_,rfl⟩

theorem arcOf_silent (owner : Owner) (name : String) (use : Use) (weight : Int64) (token : Token) :
    (arcOf owner name use weight token).mentioned? = none := by
  cases owner <;> rfl

theorem stepTop_plain (token : Token) : (stepTop token).Plain token := by
  unfold stepTop
  split
  case h_7 => exact stop_plain (.unexpected _)
  all_goals exact moveTo_plain _

theorem stepTransition_plain (name : String) (stage : Stage) (token : Token) :
    (stepTransition name stage token).Plain token := by
  unfold stepTransition
  split
  · split
    · exact emit_plain _ rfl
    · exact stop_plain (.unexpected _)
  · next kind =>
    split
    · refine ofExcept_plain _ (fails_bind (readInterval_refused name kind) fun _ _ => fails_ok _) fun step result => ?_
      obtain ⟨interval,_,same⟩ := bind_ok.mp result
      cases same
      exact emit_plain _ rfl
    · exact stop_plain (.unexpected _)
  · split
    · exact stop_plain (.unexpected _)
    · exact moveTo_plain _
  · exact moveTo_plain _
  · exact stepTop_plain token

theorem stepPlace_plain (name : String) (stage : Stage) (token : Token) : (stepPlace name stage token).Plain token := by
  unfold stepPlace
  split
  · split
    · exact emit_plain _ rfl
    · exact stop_plain (.unexpected _)
  · next kind =>
    have counts : token.kind.Counts := by simp [Kind.Counts,kind]
    split
    · refine ofExcept_plain _ (fails_bind (readWeight_refused counts) fun _ _ => fails_ok _) fun step result => ?_
      obtain ⟨count,_,same⟩ := bind_ok.mp result
      cases same
      exact emit_plain _ rfl
    · exact stop_plain (.unexpected _)
  · split
    · exact stop_plain (.unexpected _)
    · exact moveTo_plain _
  · exact moveTo_plain _
  · exact stepTop_plain token

theorem stepBody_plain (owner : Owner) (stage : Stage) (token : Token) : (stepBody owner stage token).Plain token := by
  cases owner with
  | transition name => exact stepTransition_plain name stage token
  | place name => exact stepPlace_plain name stage token

theorem stepArc_plain (owner : Owner) (stage : Stage) (name token : Token) :
    (stepArc owner stage name token).Plain token := by
  unfold stepArc
  split
  · next decorated =>
    have counts := decoration_counts decorated
    have fits : ∀ decoration, FailsAs token.Refused ((arcUse owner stage decoration).mapError (.unexpected · token)) :=
      fun _ => fails_mapError _ _ .unexpected
    refine ofExcept_plain _ ?_ fun step result => ?_
    · exact fails_bind (readWeight_refused counts) fun _ _ => fails_bind (fits _) fun _ _ => fails_ok _
    obtain ⟨weight,_,rest⟩ := bind_ok.mp result
    obtain ⟨use,_,same⟩ := bind_ok.mp rest
    cases same
    exact emit_plain _ (arcOf_silent _ _ _ _ _)
  · obtain ⟨use,fits⟩ := arcUse_plain owner stage
    rw [fits]
    exact after_plain (arcOf_silent _ _ _ _ _) (stepBody_plain owner stage token)

theorem stepUpper_plain (names : List String) (other : token.kind ≠ .ident) : (stepUpper names token).Plain token := by
  have operator : ∀ order, (stepUpper.operator names token order).Plain token := by
    intro order
    unfold stepUpper.operator
    split
    · exact stop_plain (.unexpected _)
    · exact moveTo_plain _
  unfold stepUpper
  split
  · next kind => exact absurd kind other
  · exact operator .above
  · exact operator .below
  · exact stop_plain (.unexpected _)

theorem stepLower_plain (first : List String) (order : Order) (second : List String) (other : token.kind ≠ .ident) :
    (stepLower first order second token).Plain token := by
  unfold stepLower
  rw [if_neg other]
  split
  · exact stop_plain (.unexpected _)
  · exact after_plain rfl (stepTop_plain token)

theorem step_plain (mode : Mode) (token : Token) (plain : ¬ (mode.Ranks ∧ token.kind = .ident)) :
    (step mode token).Plain token := by
  unfold Script.step
  split
  · next kind => exact stop_plain (.illegal kind)
  · cases mode with
    | top => exact stepTop_plain token
    | netName => exact expecting_plain _ _ _ fun _ => emit_plain _ rfl
    | transitionName => exact expecting_plain _ _ _ fun _ => emit_plain _ rfl
    | placeName => exact expecting_plain _ _ _ fun _ => emit_plain _ rfl
    | body owner stage => exact stepBody_plain owner stage token
    | arc owner stage name => exact stepArc_plain owner stage name token
    | upper names => exact stepUpper_plain names fun kind => plain ⟨trivial,kind⟩
    | lower first order second => exact stepLower_plain first order second fun kind => plain ⟨trivial,kind⟩
    | noteName => exact expecting_plain _ _ _ fun _ => moveTo_plain _
    | noteLevel => exact expecting_plain _ _ _ fun _ => moveTo_plain _
    | noteText => exact expecting_plain _ _ _ fun _ => emit_plain _ rfl

theorem step_ranks (ranks : mode.Ranks) (kind : token.kind = .ident) :
    ∃ next, step mode token = emit (.mention token) next := by
  unfold Script.step
  rw [if_neg (by simp [kind])]
  cases mode with
  | upper names => exact ⟨.upper (names ++ [token.text]),by simp [stepUpper,kind]⟩
  | lower first order second => exact ⟨.lower first order (second ++ [token.text]),by simp [stepLower,kind]⟩
  | _ => exact ranks.elim

theorem step_refused (mode : Mode) (token : Token) : FailsAs token.Refused (step mode token).next := by
  by_cases ranked : mode.Ranks ∧ token.kind = .ident
  · obtain ⟨next,taken⟩ := step_ranks ranked.1 ranked.2
    rw [taken]
    exact fails_ok next
  · exact (step_plain mode token ranked).refusal

theorem passes_reading (passes : Passes mode front clauses last) (rest : List Token) :
    readingFrom mode (front ++ rest) = (readingFrom last rest).prepend clauses := by
  induction passes with
  | none mode => rfl
  | one taken further ih =>
    rw [List.cons_append,reading_step taken,ih,prepend_prepend]

theorem reading_whole (tokens : List Token) (whole : (readingFrom mode tokens).ending = none) :
    ∃ clauses last, Passes mode tokens clauses last := by
  induction tokens generalizing mode with
  | nil => exact ⟨[],mode,.none mode⟩
  | cons token rest ih =>
    rcases taken : step mode token with ⟨clauses,cause | next⟩
    · rw [readingFrom,taken] at whole
      cases whole
    · rw [reading_step taken] at whole
      obtain ⟨later,last,passes⟩ := ih whole
      exact ⟨clauses ++ later,last,.one taken passes⟩

theorem passes_parts (passes : Passes mode (front ++ rest) clauses last) :
    ∃ first middle second, Passes mode front first middle ∧ Passes middle rest second last ∧
      clauses = first ++ second := by
  induction front generalizing mode clauses with
  | nil => exact ⟨[],mode,clauses,.none mode,passes,rfl⟩
  | cons token front ih =>
    cases passes with
    | one taken further =>
      obtain ⟨first,middle,second,before,behind,rfl⟩ := ih further
      exact ⟨_,middle,second,.one taken before,behind,(List.append_assoc _ _ _).symm⟩

theorem reading_breaks (tokens : List Token) (breaks : (readingFrom mode tokens).ending = some reason) :
    ∃ front token rest clauses last, tokens = front ++ token :: rest ∧ Passes mode front clauses last ∧
      (step last token).next = .error reason := by
  induction tokens generalizing mode with
  | nil => cases breaks
  | cons token rest ih =>
    rcases taken : step mode token with ⟨clauses,cause | next⟩
    · rw [readingFrom,taken] at breaks
      cases breaks
      exact ⟨[],token,rest,[],mode,rfl,.none mode,by rw [taken]⟩
    · rw [reading_step taken] at breaks
      obtain ⟨front,other,after,later,last,same,passes,stops⟩ := ih breaks
      exact ⟨token :: front,other,after,clauses ++ later,last,by rw [same]; rfl,.one taken passes,stops⟩

end TimePetri.Script
