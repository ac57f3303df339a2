import TimePetri.Proofs.Net.Sound
import TimePetri.Reader.InPlace

namespace TimePetri.Reader

open Script

-- The reading of the tokens with each clause put into effect where it is met.
def run (strict : Bool) (net : Net) : Mode → List Token → Except ParseError Net
  | _, [] => .ok net
  | mode, token :: rest => do
    let next ← (step mode token).clauses.foldlM (Net.apply strict) net
    match (step mode token).next with
    | .error reason => .error reason
    | .ok later => run strict next later rest

variable {strict : Bool} {net : Net} {mode later : Mode} {token : Token} {rest : List Token} {clause : Clause}
  {reason : ParseError}

theorem run_reading (strict : Bool) (net : Net) (mode : Mode) (tokens : List Token) :
    ((readingFrom mode tokens).clauses.foldlM (Net.apply strict) net >>= fun last =>
      match (readingFrom mode tokens).ending with
      | some reason => .error reason
      | none => .ok last) = run strict net mode tokens := by
  induction tokens generalizing net mode with
  | nil => rfl
  | cons token rest ih =>
    unfold run readingFrom
    dsimp only
    cases leads : (step mode token).next with
    | error reason => rfl
    | ok later =>
      dsimp only
      rw [List.foldlM_append,bind_assoc]
      exact congrArg ((step mode token).clauses.foldlM (Net.apply strict) net >>= ·) (funext fun next => ih next later)

theorem parse_run (strict : Bool) (text : String) :
    (Net.parse strict text).value = run strict .empty .top (tokens text) := by
  rw [← run_reading]
  unfold Net.parse Net.ofReading Logged.andThen
  rw [← Net.applyAll_fold]
  change _ = (Net.empty.applyAll strict (readingOf text).clauses).value >>= fun last =>
    match (readingOf text).ending with
    | some reason => .error reason
    | none => .ok last
  cases (Net.empty.applyAll strict (readingOf text).clauses).value with
  | error reason => rfl
  | ok last => cases (readingOf text).ending <;> rfl

theorem run_moves (taken : step mode token = moveTo later) :
    run strict net mode (token :: rest) = run strict net later rest := by
  rw [run,taken]
  rfl

theorem run_emits (taken : step mode token = emit clause later) :
    run strict net mode (token :: rest) = net.apply strict clause >>= fun next => run strict next later rest := by
  rw [run,taken]
  simp [emit]

theorem run_stops (taken : step mode token = stop reason) : run strict net mode (token :: rest) = .error reason := by
  rw [run,taken]
  rfl

theorem run_after (taken : step mode token = (step later token).after clause) :
    run strict net mode (token :: rest) = net.apply strict clause >>= fun next => run strict next later (token :: rest) := by
  rw [run,taken]
  simp only [Step.after,List.foldlM_cons,bind_assoc]
  refine congrArg (net.apply strict clause >>= ·) (funext fun next => ?_)
  rw [run]

theorem run_same (taken : step mode token = step later token) :
    run strict net mode (token :: rest) = run strict net later (token :: rest) := by
  unfold run
  rw [taken]

theorem step_illegal (illegal : token.kind = .illegal) : step mode token = stop (.lexical token) := by
  unfold Script.step
  rw [if_pos illegal]

theorem step_top (legal : token.kind ≠ .illegal) : step .top token = stepTop token := by
  unfold Script.step
  rw [if_neg legal]

theorem step_body (legal : token.kind ≠ .illegal) (owner : Owner) (stage : Stage) :
    step (.body owner stage) token = stepBody owner stage token := by
  unfold Script.step
  rw [if_neg legal]

theorem step_arc (legal : token.kind ≠ .illegal) (owner : Owner) (stage : Stage) (name : Token) :
    step (.arc owner stage name) token = stepArc owner stage name token := by
  unfold Script.step
  rw [if_neg legal]

end TimePetri.Reader
