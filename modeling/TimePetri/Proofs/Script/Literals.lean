import TimePetri.Proofs.Script.Admissible
import TimePetri.Proofs.Script.Passes

namespace TimePetri.Script

-- Whether the next token may be the interval of a transition, which stands behind its name
-- or behind the label that follows the name.
inductive Heading where
  | none
  | opened
  | named (name : String)
  deriving DecidableEq

def Heading.next (heading : Heading) (token : Token) : Heading :=
  match token.kind, heading with
  | .transition, _ => .opened
  | .ident, .opened => .named token.text
  | .label, .named name => .named name
  | _, _ => .none

def Heading.along (heading : Heading) (tokens : List Token) : Heading := tokens.foldl Heading.next heading

def literalsFrom (heading : Heading) (name : String) : List Token → List Token
  | [] => []
  | token :: rest =>
    let later := literalsFrom (heading.next token) name rest
    if heading = .named name ∧ token.kind = .interval then token :: later else later

def literals (name : String) (tokens : List Token) : List Token := literalsFrom .none name tokens

theorem literalsFrom_append (heading : Heading) (name : String) (front rest : List Token) :
    literalsFrom heading name (front ++ rest) =
      literalsFrom heading name front ++ literalsFrom (heading.along front) name rest := by
  induction front generalizing heading with
  | nil => rfl
  | cons token front ih =>
    rw [List.cons_append,literalsFrom,literalsFrom,ih]
    split <;> rfl

def Clause.interval? (name : String) : Clause → Option Interval
  | .interval other allowed _ => if other = name then some allowed else none
  | _ => none

def intervalsOf (name : String) (clauses : List Clause) : List Interval := clauses.filterMap (Clause.interval? name)

variable {mode next last : Mode} {token : Token} {taken : Step} {clause : Clause} {clauses : List Clause}
  {front : List Token} {start : Heading} {name : String} {interval : Interval}

theorem interval?_interval (name other : String) (interval : Interval) (token : Token) :
    (Clause.interval other interval token).interval? name = if other = name then some interval else none := rfl

theorem interval?_declared (measured : clause.Measured) (said : clause.interval? name = some interval) :
    interval.Declared := by
  cases clause with
  | interval other own token =>
    rw [interval?_interval] at said
    split at said
    · cases said; exact measured
    · cases said
  | _ => cases said

def Mode.heading : Mode → Heading
  | .transitionName => .opened
  | .body (.transition name) .named => .named name
  | .body (.transition name) .labelled => .named name
  | _ => .none

def Mode.Settled : Mode → Prop
  | .arc _ stage _ => stage = .before ∨ stage = .after
  | _ => True

-- A token that leads on tells where the next one stands, and it is read as an interval
-- exactly where it is one.
structure Tells (start : Heading) (token : Token) (clauses : List Clause) (next : Mode) : Prop where
  settled : next.Settled
  heading : next.heading = start.next token
  intervals : ∀ name, (intervalsOf name clauses).map .ok =
    if start = .named name ∧ token.kind = .interval then [readInterval token name] else []

def Step.Tells (start : Heading) (token : Token) (taken : Step) : Prop :=
  ∀ next, taken.next = .ok next → Script.Tells start token taken.clauses next

theorem stop_tells (reason : ParseError) : (stop reason).Tells start token := fun _ leads => by cases leads

theorem moveTo_tells (settled : next.Settled) (same : next.heading = start.next token) (other : token.kind ≠ .interval) :
    (moveTo next).Tells start token := by
  rintro _ ⟨⟩
  exact ⟨settled,same,fun name => by rw [if_neg fun here => other here.2]; rfl⟩

theorem emit_tells (settled : next.Settled) (same : next.heading = start.next token) (other : token.kind ≠ .interval)
    (silent : ∀ name, clause.interval? name = none) : (emit clause next).Tells start token := by
  rintro _ ⟨⟩
  refine ⟨settled,same,fun name => ?_⟩
  rw [if_neg fun here => other here.2]
  simp [emit,intervalsOf,silent]

theorem after_tells (silent : ∀ name, clause.interval? name = none) (tells : taken.Tells start token) :
    (taken.after clause).Tells start token := by
  intro next leads
  have told := tells next leads
  refine ⟨told.settled,told.heading,fun name => ?_⟩
  rw [← told.intervals]
  simp [Step.after,intervalsOf,silent]

theorem ofExcept_tells (result : Except ParseError Step) (all : ∀ step, result = .ok step → step.Tells start token) :
    (Step.ofExcept result).Tells start token := by
  cases result with
  | ok step => exact all step rfl
  | error reason => exact stop_tells reason

theorem expecting_tells (kind : Kind) (expected : Expectation) (further : String → Step)
    (all : token.kind = kind → (further token.text).Tells start token) :
    (expecting kind expected further token).Tells start token := by
  unfold expecting
  split
  · next same => exact all same
  · exact stop_tells _

theorem stepTop_tells (start : Heading) (token : Token) : (stepTop token).Tells start token := by
  unfold stepTop
  split
  case h_7 => exact stop_tells _
  all_goals next kind => exact moveTo_tells trivial (by simp [Mode.heading,Heading.next,kind]) (by simp [kind])

theorem arcs_settled (owner : Owner) (stage : Stage) (name : Token) : (Mode.arc owner stage.arcs name).Settled := by
  cases stage <;> simp [Mode.Settled,Stage.arcs]

theorem stepTransition_tells (name : String) (stage : Stage) (token : Token) :
    (stepTransition name stage token).Tells (Mode.body (.transition name) stage).heading token := by
  unfold stepTransition
  split
  · next kind =>
    split
    · next here =>
      subst here
      exact emit_tells trivial (by simp [Mode.heading,Heading.next,kind]) (by simp [kind]) fun _ => rfl
    · exact stop_tells _
  · next kind =>
    split
    · next here =>
      have named : (Mode.body (.transition name) stage).heading = .named name := by rcases here with rfl | rfl <;> rfl
      rw [named]
      refine ofExcept_tells _ fun step result => ?_
      obtain ⟨interval,read,same⟩ := bind_ok.mp result
      cases same
      rintro _ ⟨⟩
      refine ⟨trivial,by simp [Mode.heading,Heading.next,kind],fun other => ?_⟩
      by_cases same : name = other
      · subst same; simp [emit,intervalsOf,interval?_interval,kind,read]
      · simp [emit,intervalsOf,interval?_interval,same]
    · exact stop_tells _
  · next kind =>
    split
    · exact stop_tells _
    · exact moveTo_tells trivial (by simp [Mode.heading,Heading.next,kind]) (by simp [kind])
  · next kind =>
    refine moveTo_tells (arcs_settled _ _ _) ?_ (by simp [kind])
    cases stage <;> simp [Mode.heading,Heading.next,kind]
  · exact stepTop_tells _ token

theorem stepPlace_tells (name : String) (stage : Stage) (token : Token) :
    (stepPlace name stage token).Tells .none token := by
  unfold stepPlace
  split
  · next kind =>
    split
    · exact emit_tells trivial (by simp [Mode.heading,Heading.next,kind]) (by simp [kind]) fun _ => rfl
    · exact stop_tells _
  · next kind =>
    split
    · refine ofExcept_tells _ fun step result => ?_
      obtain ⟨count,_,same⟩ := bind_ok.mp result
      cases same
      exact emit_tells trivial (by simp [Mode.heading,Heading.next,kind]) (by simp [kind]) fun _ => rfl
    · exact stop_tells _
  · next kind =>
    split
    · exact stop_tells _
    · exact moveTo_tells trivial (by simp [Mode.heading,Heading.next,kind]) (by simp [kind])
  · next kind => exact moveTo_tells (arcs_settled _ _ _) (by simp [Mode.heading,Heading.next,kind]) (by simp [kind])
  · exact stepTop_tells _ token

theorem stepBody_tells (owner : Owner) (stage : Stage) (token : Token) :
    (stepBody owner stage token).Tells (Mode.body owner stage).heading token := by
  cases owner with
  | transition name => exact stepTransition_tells name stage token
  | place name => exact stepPlace_tells name stage token

theorem stepArc_tells (owner : Owner) (stage : Stage) (name token : Token) (settled : stage = .before ∨ stage = .after) :
    (stepArc owner stage name token).Tells .none token := by
  have later : (Mode.body owner stage).heading = .none := by
    rcases settled with rfl | rfl <;> cases owner <;> rfl
  have silent {use : Use} {weight : Int64} {at' : Token} (other : String) :
      (arcOf owner name.text use weight at').interval? other = none := by
    cases owner <;> rfl
  unfold stepArc
  split
  · next decoration found =>
    refine ofExcept_tells _ fun step result => ?_
    obtain ⟨weight,_,rest⟩ := bind_ok.mp result
    obtain ⟨use,_,same⟩ := bind_ok.mp rest
    cases same
    have kind : token.kind = .star ∨ token.kind = .read ∨ token.kind = .inhibitor := by
      cases kind : token.kind <;> simp [kind,decoration?] at found ⊢
    refine emit_tells trivial ?_ ?_ silent
    · rw [later]
      rcases kind with kind | kind | kind <;> simp [Heading.next,kind]
    · rcases kind with kind | kind | kind <;> simp [kind]
  · refine ofExcept_tells _ fun step result => ?_
    obtain ⟨use,_,same⟩ := bind_ok.mp result
    cases same
    exact after_tells silent (later ▸ stepBody_tells owner stage token)

theorem stepUpper_tells (names : List String) (token : Token) : (stepUpper names token).Tells .none token := by
  have operator : ∀ order, token.kind = .gt ∨ token.kind = .lt → (stepUpper.operator names token order).Tells .none token := by
    intro order kind
    unfold stepUpper.operator
    split
    · exact stop_tells _
    · rcases kind with kind | kind <;>
        exact moveTo_tells trivial (by simp [Mode.heading,Heading.next,kind]) (by simp [kind])
  unfold stepUpper
  split
  · next kind => exact emit_tells trivial (by simp [Mode.heading,Heading.next,kind]) (by simp [kind]) fun _ => rfl
  · next kind => exact operator _ (.inl kind)
  · next kind => exact operator _ (.inr kind)
  · exact stop_tells _

theorem stepLower_tells (first : List String) (order : Order) (second : List String) (token : Token) :
    (stepLower first order second token).Tells .none token := by
  unfold stepLower
  split
  · next kind => exact emit_tells trivial (by simp [Mode.heading,Heading.next,kind]) (by simp [kind]) fun _ => rfl
  · split
    · exact stop_tells _
    · exact after_tells (fun _ => rfl) (stepTop_tells _ token)

theorem step_tells (mode : Mode) (token : Token) (settled : mode.Settled) : (step mode token).Tells mode.heading token := by
  unfold Script.step
  split
  · exact stop_tells _
  · cases mode with
    | top => exact stepTop_tells _ token
    | body owner stage => exact stepBody_tells owner stage token
    | arc owner stage name => exact stepArc_tells owner stage name token settled
    | upper names => exact stepUpper_tells names token
    | lower first order second => exact stepLower_tells first order second token
    | netName | transitionName | placeName | noteText =>
      exact expecting_tells _ _ _ fun kind =>
        emit_tells trivial (by simp [Mode.heading,Heading.next,kind]) (by simp [kind]) fun _ => rfl
    | noteName | noteLevel =>
      exact expecting_tells _ _ _ fun kind =>
        moveTo_tells trivial (by simp [Mode.heading,Heading.next,kind]) (by simp [kind])

theorem passes_literals (passes : Passes mode front clauses last) (settled : mode.Settled) :
    last.Settled ∧ last.heading = mode.heading.along front ∧
      ∀ name, (intervalsOf name clauses).map .ok = (literalsFrom mode.heading name front).map (readInterval · name) := by
  induction passes with
  | none mode => exact ⟨settled,rfl,fun _ => rfl⟩
  | @one mode next last token rest clauses later taken further ih =>
    have told : Tells mode.heading token clauses next := by
      have tells := step_tells mode token settled
      rw [taken] at tells
      exact tells next rfl
    obtain ⟨ends,heading,intervals⟩ := ih told.settled
    refine ⟨ends,by rw [heading,told.heading]; rfl,fun name => ?_⟩
    rw [intervalsOf,List.filterMap_append,List.map_append,literalsFrom,← told.heading]
    have here := told.intervals name
    have after := intervals name
    unfold intervalsOf at here after
    rw [here,after]
    split <;> rfl

end TimePetri.Script
