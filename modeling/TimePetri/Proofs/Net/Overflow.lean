import TimePetri.Proofs.Marking.Sum
import TimePetri.Proofs.Net.Weights

namespace TimePetri

open Script

-- The counts that are added up at a place fit into words. A cap is no sum.
def Cell.Storable (cell : Cell) : Prop := Fits cell.guard ∧ Fits cell.pre ∧ Fits cell.delta

namespace Script

-- The token that a clause keeps for what may turn out not to fit.
def Clause.token? : Clause → Option Token
  | .interval _ _ token => some token
  | .marking _ _ token => some token
  | .arc _ _ _ _ token => some token
  | .mention token => some token
  | _ => none

-- What a clause may be refused for. It adds up too much, its interval does not meet those
-- given before, or strict reading does not know its transition.
inductive Clause.Refused (strict : Bool) : Clause → ParseError → Prop where
  | full {clause : Clause} {token : Token} (keeps : clause.token? = some token) :
      Refused strict clause (.number token (.overflow token.text))
  | apart {name : String} {time : Interval} {token : Token} (cause : IntervalError) :
      Refused strict (.interval name time token) (.interval token name cause)
  | undeclared {token : Token} (strictly : strict = true) : Refused strict (.mention token) (.undeclared token)

def weighed (clauses : List Clause) (place transition : String) : Cell :=
  (clauses.flatMap Clause.edges).foldl (Cell.touch place transition) .empty

def counted (clauses : List Clause) (place : String) : Nat := (clauses.map (Clause.tokensAt place)).sum

-- A word is too short for a sum that the net keeps: what is asked for, what is taken, the
-- change of marking or the initial tokens. All that a transition puts back is none of
-- these. Its output weights are added to the change only, which may fit although their
-- total does not.
def Exceeds (clauses : List Clause) : Prop :=
  ∃ place transition, ¬ (weighed clauses place transition).Storable ∨ ¬ Fits (counted clauses place)

end Script

theorem fits_zero : Fits 0 := by decide

namespace Row

variable {row : Row} {place : Nat} {use : Use} {weight : Int64} {fault : Fault}

theorem addAt_failed {m : Marking} {change : Int64} {next : Marking → Except Fault Row}
    (rest : ∀ changed, next changed = .error fault → ∃ operation, fault = .overflow operation)
    (failed : (m.addAt place change >>= next) = .error fault) : ∃ operation, fault = .overflow operation := by
  cases added : m.addAt place change with
  | ok changed => rw [added] at failed; exact rest changed failed
  | error cause =>
    rw [added] at failed
    cases failed
    exact ⟨_,(Marking.addAt_error _ _ _ _ added).1⟩

theorem connect_failed (failed : row.connect place use weight = .error fault) : ∃ operation, fault = .overflow operation := by
  cases use with
  | consume =>
    cases negated : negWord weight with
    | error cause =>
      unfold connect at failed
      rw [negated] at failed
      cases failed
      exact ⟨_,((checked_error _ _ _).mp negated).1⟩
    | ok taken =>
      unfold connect at failed
      rw [negated] at failed
      exact addAt_failed (fun _ => addAt_failed fun _ => addAt_failed fun _ done => by cases done) failed
  | produce => exact addAt_failed (fun _ done => by cases done) failed
  | test => cases failed
  | inhibit => cases failed

theorem cell_storable (row : Row) (place : Nat) : (row.cell place).Storable :=
  ⟨row.guard.count_range place,row.pre.count_range place,row.delta.count_range place⟩

end Row

namespace Net

variable {net : Net} {strict : Bool} {clause : Clause} {reason : ParseError}

theorem cell_storable (net : Net) (place transition : String) : (net.cell place transition).Storable := by
  unfold cell
  split
  · exact Row.cell_storable _ _
  · exact ⟨fits_zero,fits_zero,fits_zero⟩

theorem held_fits (net : Net) (place : String) : Fits (net.held place) := by
  unfold held
  cases net.placeIndex? place with
  | none => exact fits_zero
  | some p => exact net.initial.count_range p

theorem narrow_refused (sound : net.Sound) (name : String) (time : Interval) (token : Token) :
    FailsAs (fun reason => ∃ cause, reason = .interval token name cause)
      ((net.ensureTransition name).2.narrow (net.ensureTransition name).1 name time token) := by
  have declared := ensureTransition_sound sound name
  have inside : (net.ensureTransition name).1 < (net.ensureTransition name).2.time.size :=
    declared.tabled.time ▸ ensureTransition_inside net name
  unfold narrow
  rw [fetch_inside _ _ inside,ok_mapError,ok_bind]
  exact fails_bind (fails_mapError _ _ fun cause => ⟨cause,rfl⟩) fun _ _ => fails_ok _

theorem apply_refused (sound : net.Sound) (strict : Bool) (clause : Clause) :
    FailsAs (clause.Refused strict) (net.apply strict clause) := by
  intro reason failed
  cases clause with
  | netName name => cases failed
  | transition name => cases failed
  | transitionLabel name label => cases failed
  | interval name interval token =>
    obtain ⟨cause,rfl⟩ := narrow_refused sound name interval token reason failed
    exact .apart cause
  | place name => cases failed
  | placeLabel name label => cases failed
  | marking name count token =>
    unfold apply at failed
    dsimp only at failed
    cases added : (net.ensurePlace name).2.initial.addAt (net.ensurePlace name).1 count with
    | ok initial => rw [added] at failed; cases failed
    | error fault =>
      obtain ⟨same,_⟩ := Marking.addAt_error _ _ _ _ added
      rw [added,same] at failed
      cases failed
      exact .full rfl
  | arc p t use weight token =>
    have placed := ensureTransition_sound (ensurePlace_sound sound p) t
    unfold apply at failed
    dsimp only at failed
    rw [connect_row _ _ _ _ _ placed.tabled (ensureTransition_inside _ _)] at failed
    cases connected : Row.connect _ (net.ensurePlace p).1 use weight with
    | ok row => rw [connected] at failed; cases failed
    | error fault =>
      obtain ⟨operation,same⟩ := Row.connect_failed connected
      rw [connected,same] at failed
      cases failed
      exact .full rfl
  | mention token =>
    unfold apply at failed
    dsimp only at failed
    split at failed
    · next unknown =>
      cases failed
      exact .undeclared ((Bool.and_eq_true _ _).mp unknown).1
    · cases failed
  | priority first order second => cases order <;> cases failed
  | note text => cases failed

theorem run_refused (sound : net.Sound) (strict : Bool) (clauses : List Clause)
    (measured : ∀ clause ∈ clauses, clause.Measured) :
    FailsAs (fun reason => ∃ clause ∈ clauses, clause.Refused strict reason) (clauses.foldlM (apply strict) net) := by
  induction clauses generalizing net with
  | nil => exact fails_ok net
  | cons clause rest ih =>
    rw [List.foldlM_cons]
    refine fails_bind (fun reason failed => ⟨clause,by simp,apply_refused sound strict clause reason failed⟩) ?_
    intro next applied reason failed
    obtain ⟨other,member,refused⟩ := ih (apply_sound sound strict clause (measured clause (by simp)) applied)
      (fun other member => measured other (List.mem_cons_of_mem _ member)) reason failed
    exact ⟨other,List.mem_cons_of_mem _ member,refused⟩

theorem parse_refused (strict : Bool) (text : String) :
    FailsAs (fun reason => (∃ clause ∈ (readingOf text).clauses, clause.Refused strict reason) ∨
      (readingOf text).ending = some reason) (parse strict text).value := by
  have measured : ∀ clause ∈ (readingOf text).clauses, clause.Measured :=
    fun clause member => ((readingOf_admissible text).clauses clause member).measured
  have clauses := run_refused empty_sound strict _ measured
  rw [← applyAll_fold] at clauses
  unfold parse ofReading Logged.andThen
  cases applied : (empty.applyAll strict (readingOf text).clauses).value with
  | error reason => exact fails_error (.inl (clauses reason applied))
  | ok net =>
    dsimp only
    cases (readingOf text).ending with
    | none => exact fails_ok net
    | some reason => exact fails_error (.inr rfl)

theorem parse_genuine (strict : Bool) (text : String) : Genuinely (parse strict text).value := by
  intro reason failed
  rcases parse_refused strict text reason failed with ⟨clause,_,refused⟩ | ends
  · cases refused <;> trivial
  · exact (readingOf_admissible text).ending reason ends

theorem apply_exceeds {before : List Clause} (measured : ∀ other ∈ before ++ [clause], other.Measured)
    (applied : before.foldlM (apply strict) empty = .ok net) (exceeds : Exceeds (before ++ [clause])) :
    ∃ token, clause.token? = some token ∧ net.apply strict clause = .error (.number token (.overflow token.text)) := by
  have earlier : ∀ other ∈ before, other.Measured := fun other member => measured other (List.mem_append_left _ member)
  have sound := run_sound _ earlier applied
  cases further : net.apply strict clause with
  | ok next =>
    obtain ⟨place,transition,short⟩ := exceeds
    have all : (before ++ [clause]).foldlM (apply strict) empty = .ok next := by
      rw [List.foldlM_append,applied,ok_bind,List.foldlM_cons,further]
      rfl
    obtain ⟨total,sum⟩ := run_weights _ measured all place transition
    rcases short with cell | held
    · refine absurd ?_ cell
      rw [weighed,Cell.empty,← total]
      exact cell_storable next place transition
    · refine absurd ?_ held
      rw [counted,← sum]
      exact held_fits next place
  | error reason =>
    -- A clause that adds up nothing leaves what fits as it is.
    have idle (edges : clause.edges = []) (tokens : ∀ place, clause.tokensAt place = 0) :
        ¬ Exceeds (before ++ [clause]) := by
      rintro ⟨place,transition,short⟩
      obtain ⟨cells,helds⟩ := run_weights _ earlier applied place transition
      rcases short with cell | held
      · refine absurd ?_ cell
        rw [weighed,List.flatMap_append,List.flatMap_singleton,edges,List.append_nil,Cell.empty,← cells]
        exact cell_storable net place transition
      · refine absurd ?_ held
        rw [counted,List.map_append,List.sum_append,List.map_singleton,tokens,List.sum_singleton,Nat.add_zero,← helds]
        exact held_fits net place
    cases apply_refused sound strict clause reason further with
    | full keeps => exact ⟨_,keeps,rfl⟩
    | apart cause => exact absurd exceeds (idle rfl fun _ => rfl)
    | undeclared strictly => exact absurd exceeds (idle rfl fun _ => rfl)

theorem parse_exceeds {text : String} {before after : List Clause} (split : (readingOf text).clauses = before ++ clause :: after)
    (applied : before.foldlM (apply strict) empty = .ok net) (exceeds : Exceeds (before ++ [clause])) :
    ∃ token, clause.token? = some token ∧ (parse strict text).value = .error (.number token (.overflow token.text)) := by
  have measured : ∀ other ∈ before ++ [clause], other.Measured := by
    intro other member
    have inText : other ∈ (readingOf text).clauses := by
      rw [split]
      exact List.mem_append.mpr ((List.mem_append.mp member).imp_right fun same => by simp [List.mem_singleton.mp same])
    exact ((readingOf_admissible text).clauses other inText).measured
  obtain ⟨token,known,failed⟩ := apply_exceeds measured applied exceeds
  refine ⟨token,known,?_⟩
  have clauses : (empty.applyAll strict (readingOf text).clauses).value = .error (.number token (.overflow token.text)) := by
    rw [applyAll_fold,split,List.foldlM_append,applied,ok_bind,List.foldlM_cons,failed]
    rfl
  unfold parse ofReading Logged.andThen
  rw [clauses]
  rfl

end Net

end TimePetri
