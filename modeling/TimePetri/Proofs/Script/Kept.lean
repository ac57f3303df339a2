import TimePetri.Proofs.Net.Overflow
import TimePetri.Proofs.Script.Passes

namespace TimePetri.Script

-- The name that waits for the token behind it. A text may be refused at it yet.
def Mode.token? : Mode → Option Token
  | .arc _ _ name => some name
  | _ => none

-- What a step keeps for later are tokens that were met.
structure Step.Keeps (met : Token → Prop) (taken : Step) : Prop where
  clauses : ∀ clause ∈ taken.clauses, ∀ token, clause.token? = some token → met token
  next : ∀ mode, taken.next = .ok mode → ∀ token, mode.token? = some token → met token

variable {met : Token → Prop} {taken : Step} {mode : Mode} {clause : Clause} {token : Token} {owner : Owner} {stage : Stage}

theorem moveTo_keeps (waits : ∀ name, mode.token? = some name → met name) : (moveTo mode).Keeps met :=
  ⟨by simp [moveTo],fun next same => by cases same; exact waits⟩

theorem emit_keeps (kept : ∀ token, clause.token? = some token → met token) (none : mode.token? = none) :
    (emit clause mode).Keeps met := by
  refine ⟨fun other member => ?_,fun next same name waits => ?_⟩
  · cases List.mem_singleton.mp member
    exact kept
  · cases same
    rw [none] at waits
    cases waits

theorem stop_keeps (reason : ParseError) : (stop reason).Keeps met := ⟨by simp [stop],fun next same => by cases same⟩

theorem after_keeps (kept : ∀ token, clause.token? = some token → met token) (rest : taken.Keeps met) :
    (taken.after clause).Keeps met := by
  refine ⟨fun other member => ?_,rest.next⟩
  rcases List.mem_cons.mp member with rfl | later
  · exact kept
  · exact rest.clauses other later

theorem ofExcept_keeps (result : Except ParseError Step) (all : ∀ step, result = .ok step → step.Keeps met) :
    (Step.ofExcept result).Keeps met := by
  cases result with
  | ok step => exact all step rfl
  | error reason => exact stop_keeps reason

theorem expecting_keeps (kind : Kind) (expected : Expectation) (next : String → Step) (all : (next token.text).Keeps met) :
    (expecting kind expected next token).Keeps met := by
  unfold expecting
  split
  · exact all
  · exact stop_keeps _

theorem arcOf_token (owner : Owner) (name : String) (use : Use) (weight : Int64) (token : Token) :
    (arcOf owner name use weight token).token? = some token := by
  cases owner <;> rfl

theorem stepTop_keeps (token : Token) : (stepTop token).Keeps met := by
  unfold stepTop
  split
  case h_7 => exact stop_keeps _
  all_goals exact moveTo_keeps nofun

theorem stepTransition_keeps (name : String) (stage : Stage) (here : met token) :
    (stepTransition name stage token).Keeps met := by
  unfold stepTransition
  split
  · split
    · exact emit_keeps nofun rfl
    · exact stop_keeps _
  · split
    · refine ofExcept_keeps _ fun step result => ?_
      obtain ⟨interval,_,same⟩ := bind_ok.mp result
      cases same
      exact emit_keeps (fun kept same => by cases same; exact here) rfl
    · exact stop_keeps _
  · split
    · exact stop_keeps _
    · exact moveTo_keeps nofun
  · exact moveTo_keeps fun name same => by cases same; exact here
  · exact stepTop_keeps token

theorem stepPlace_keeps (name : String) (stage : Stage) (here : met token) : (stepPlace name stage token).Keeps met := by
  unfold stepPlace
  split
  · split
    · exact emit_keeps nofun rfl
    · exact stop_keeps _
  · split
    · refine ofExcept_keeps _ fun step result => ?_
      obtain ⟨count,_,same⟩ := bind_ok.mp result
      cases same
      exact emit_keeps (fun kept same => by cases same; exact here) rfl
    · exact stop_keeps _
  · split
    · exact stop_keeps _
    · exact moveTo_keeps nofun
  · exact moveTo_keeps fun name same => by cases same; exact here
  · exact stepTop_keeps token

theorem stepBody_keeps (owner : Owner) (stage : Stage) (here : met token) : (stepBody owner stage token).Keeps met := by
  cases owner with
  | transition name => exact stepTransition_keeps name stage here
  | place name => exact stepPlace_keeps name stage here

theorem stepArc_keeps (owner : Owner) (stage : Stage) {name : Token} (before : met name) (here : met token) :
    (stepArc owner stage name token).Keeps met := by
  unfold stepArc
  split
  · refine ofExcept_keeps _ fun step result => ?_
    obtain ⟨weight,_,rest⟩ := bind_ok.mp result
    obtain ⟨use,_,same⟩ := bind_ok.mp rest
    cases same
    refine emit_keeps (fun kept same => ?_) rfl
    cases (arcOf_token _ _ _ _ _).symm.trans same
    exact here
  · refine ofExcept_keeps _ fun step result => ?_
    obtain ⟨use,_,same⟩ := bind_ok.mp result
    cases same
    refine after_keeps (fun kept same => ?_) (stepBody_keeps owner stage here)
    cases (arcOf_token _ _ _ _ _).symm.trans same
    exact before

theorem stepUpper_keeps (names : List String) (here : met token) : (stepUpper names token).Keeps met := by
  have operator : ∀ order, (stepUpper.operator names token order).Keeps met := by
    intro order
    unfold stepUpper.operator
    split
    · exact stop_keeps _
    · exact moveTo_keeps nofun
  unfold stepUpper
  split
  · exact emit_keeps (fun kept same => by cases same; exact here) rfl
  · exact operator .above
  · exact operator .below
  · exact stop_keeps _

theorem stepLower_keeps (first : List String) (order : Order) (second : List String) (here : met token) :
    (stepLower first order second token).Keeps met := by
  unfold stepLower
  split
  · exact emit_keeps (fun kept same => by cases same; exact here) rfl
  · split
    · exact stop_keeps _
    · exact after_keeps nofun (stepTop_keeps token)

theorem step_keeps (before : ∀ name, mode.token? = some name → met name) (here : met token) :
    (step mode token).Keeps met := by
  unfold Script.step
  split
  · exact stop_keeps _
  · cases mode with
    | top => exact stepTop_keeps token
    | netName => exact expecting_keeps _ _ _ (emit_keeps nofun rfl)
    | transitionName => exact expecting_keeps _ _ _ (emit_keeps nofun rfl)
    | placeName => exact expecting_keeps _ _ _ (emit_keeps nofun rfl)
    | body owner stage => exact stepBody_keeps owner stage here
    | arc owner stage name => exact stepArc_keeps owner stage (before name rfl) here
    | upper names => exact stepUpper_keeps names here
    | lower first order second => exact stepLower_keeps first order second here
    | noteName => exact expecting_keeps _ _ _ (moveTo_keeps nofun)
    | noteLevel => exact expecting_keeps _ _ _ (moveTo_keeps nofun)
    | noteText => exact expecting_keeps _ _ _ (emit_keeps nofun rfl)

theorem readingFrom_keeps (tokens : List Token) (before : ∀ name, mode.token? = some name → met name)
    (all : ∀ token ∈ tokens, met token) :
    ∀ clause ∈ (readingFrom mode tokens).clauses, ∀ token, clause.token? = some token → met token := by
  induction tokens generalizing mode with
  | nil => simp [readingFrom]
  | cons token rest ih =>
    have here := step_keeps before (all token (by simp))
    unfold readingFrom
    dsimp only
    split
    · exact here.clauses
    · next next leads =>
      have later := ih (here.next next leads) fun other inRest => all other (List.mem_cons_of_mem _ inRest)
      intro clause member
      rcases List.mem_append.mp member with now | after
      · exact here.clauses clause now
      · exact later clause after

theorem readingOf_keeps (text : String) : ∀ clause ∈ (readingOf text).clauses, ∀ token, clause.token? = some token →
    token ∈ tokens text := readingFrom_keeps _ nofun fun _ => id

theorem ending_refused (text : String) {reason : ParseError} (breaks : (readingOf text).ending = some reason) :
    ∃ token ∈ tokens text, token.Refused reason := by
  obtain ⟨front,token,rest,clauses,last,same,_,stops⟩ := reading_breaks (tokens text) breaks
  exact ⟨token,by rw [same]; simp,step_refused last token reason stops⟩

theorem refused_token {reason : ParseError} (refused : token.Refused reason) : reason.token? = some token := by
  cases refused <;> rfl

theorem refused_kept {strict : Bool} {reason : ParseError} (refused : clause.Refused strict reason) :
    ∃ token, clause.token? = some token ∧ reason.token? = some token := by
  cases refused with
  | full keeps => exact ⟨_,keeps,rfl⟩
  | apart cause => exact ⟨_,rfl,rfl⟩
  | undeclared strictly => exact ⟨_,rfl,rfl⟩

end TimePetri.Script
