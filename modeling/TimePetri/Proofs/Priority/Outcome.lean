import TimePetri.Proofs.Priority.Closure

namespace TimePetri.Priority

open Relation (TransGen ReflTransGen)

-- How a closure ends: the grounded transitions have their complete lists and the
-- others the lists they came with. It succeeds if there are no others, and if it
-- fails it has looked at exactly these, or there was nothing to begin with.
structure Outcome (origin : Relation) (names : Array String) (closure : Closure) : Prop where
  size : closure.relation.size = origin.size
  complete : ∀ t, Grounded origin t → Complete origin t (lowerOf closure.relation t)
  kept : ∀ t, ¬ Grounded origin t → lowerOf closure.relation t = lowerOf origin t
  succeeded : ∀ passes, closure.passes = .ok passes → ∀ t, t < origin.size → Grounded origin t
  failed : ∀ flaw, closure.passes = .error flaw → ∃ work, work ≠ [] ∧ Increasing work ∧
    (∀ t, t ∈ work ↔ t < origin.size ∧ ¬ Grounded origin t) ∧
    flaw = if ∀ t, t < origin.size → lowerOf origin t ≠ [] then .noMinimal else stuck origin names work

theorem Progress.kept_ungrounded (progress : Progress origin relation final work) (t : Nat)
    (ungrounded : ¬ Grounded origin t) : lowerOf relation t = lowerOf origin t := by
  by_cases inside : t < origin.size
  · rcases (progress.covers t).mp inside with done | inWork
    · exact absurd (progress.grounded t done) ungrounded
    · exact progress.kept t inWork
  · rw [lowerOf_outside origin t inside,lowerOf_outside relation t (progress.size ▸ inside)]

theorem Progress.complete_all (progress : Progress origin relation final work)
    (stuck : ∀ t ∈ work, ¬ Grounded origin t) (t : Nat) (grounded : Grounded origin t) :
    Complete origin t (lowerOf relation t) := by
  rcases (progress.covers t).mp (grounded_inTable grounded) with done | inWork
  · exact progress.complete t done
  · exact absurd grounded (stuck t inWork)

theorem Progress.finished (progress : Progress origin relation final []) (passes : Nat) :
    Outcome origin names ⟨relation,.ok passes⟩ := by
  refine ⟨progress.size,progress.complete_all (by simp),progress.kept_ungrounded,?_,?_⟩
  · intro _ _ t inside
    rcases (progress.covers t).mp inside with done | inWork
    · exact progress.grounded t done
    · cases inWork
  · intro flaw failed
    cases failed

theorem Progress.stopped (progress : Progress origin relation final work)
    (none : readyAmong relation final work = []) (left : work ≠ []) (flaw : Flaw)
    (reason : flaw = if ∀ t, t < origin.size → lowerOf origin t ≠ [] then .noMinimal else Priority.stuck origin names work) :
    Outcome origin names ⟨relation,.error flaw⟩ := by
  have open_ := progress.stuck none
  refine ⟨progress.size,progress.complete_all fun t inWork => ((open_ t).mp inWork).2,progress.kept_ungrounded,?_,?_⟩
  · intro passes succeeded
    cases succeeded
  · intro other failed
    cases failed
    exact ⟨work,left,progress.increasing,open_,reason⟩

theorem stuck_kept (kept : ∀ t ∈ work, lowerOf relation t = lowerOf origin t) :
    stuck relation names work = stuck origin names work := by
  have same : work.find? (fun t => search t (lowerOf relation t)) = work.find? (fun t => search t (lowerOf origin t)) := by
    induction work with
    | nil => rfl
    | cons t rest ih =>
      rw [List.find?_cons,List.find?_cons,kept t (by simp),ih fun u member => kept u (List.mem_cons_of_mem _ member)]
  unfold stuck
  rw [same]

theorem closeFrom_outcome (ordered : Ordered origin) (progress : Progress origin relation final work)
    (bottom : ∃ t, t < origin.size ∧ lowerOf origin t = []) : Outcome origin names (closeFrom relation names final work passes) := by
  fun_induction closeFrom relation names final work passes with
  | case1 => exact progress.finished _
  | case2 relation final work passes left none =>
    refine progress.stopped none left _ ?_
    obtain ⟨t,inside,empty⟩ := bottom
    rw [if_neg fun all => all t inside empty,stuck_kept progress.kept]
  | case3 relation final work passes left some ready ih => exact ih (pass_progress ordered progress)

theorem bottom_exact (relation : Relation) (t : Nat) : isBottom relation t = true ↔ lowerOf relation t = [] := by
  simp [isBottom]

theorem bottom_complete (origin : Relation) (t : Nat) (empty : lowerOf origin t = []) :
    Complete origin t (lowerOf origin t) := by
  have nothing : ∀ u, ¬ Below origin t u := by simp [Below,empty]
  refine ⟨by rw [empty]; exact increasing_nil,fun u => ?_⟩
  rw [below_step]
  simp [empty,nothing]

theorem start_standing (origin : Relation) :
    Standing origin origin ((List.range origin.size).filter (isBottom origin))
      ((List.range origin.size).filter fun t => !isBottom origin t) := by
  constructor
  case size => rfl
  case covers =>
    intro t
    simp only [List.mem_filter,List.mem_range]
    cases isBottom origin t <;> simp
  case apart =>
    intro t final open_
    simp only [List.mem_filter,List.mem_range] at final open_
    simp [final.2] at open_
  case increasing => exact List.Pairwise.filter _ (range_increasing _)
  case kept => exact fun _ _ => rfl

theorem start_progress (origin : Relation) :
    Progress origin origin ((List.range origin.size).filter (isBottom origin))
      ((List.range origin.size).filter fun t => !isBottom origin t) := by
  refine { start_standing origin with grounded := ?_, complete := ?_ }
  · intro t member
    obtain ⟨inside,empty⟩ := List.mem_filter.mp member
    rw [bottom_exact] at empty
    refine .intro t (List.mem_range.mp inside) fun u below => ?_
    simp [Below,empty] at below
  · intro t member
    exact bottom_complete origin t ((bottom_exact _ _).mp (List.mem_filter.mp member).2)

theorem close_outcome (origin : Relation) (names : Array String) (ordered : Ordered origin) :
    Outcome origin names (close origin names) := by
  have progress := start_progress origin
  unfold close
  dsimp only
  split
  · next none => rw [none] at progress; exact progress.finished 0
  · next left =>
    split
    · next noBottom =>
      rw [noBottom] at progress
      refine progress.stopped ?_ left _ ?_
      · refine List.eq_nil_iff_forall_not_mem.mpr fun t ready => ?_
        obtain ⟨inWork,lower⟩ := (ready_member _ _ _ _).mp ready
        have empty : lowerOf origin t = [] := List.eq_nil_iff_forall_not_mem.mpr fun u below => by simpa using lower u below
        simp [(bottom_exact origin t).mpr empty] at inWork
      · rw [if_pos]
        intro t inside empty
        have member : t ∈ (List.range origin.size).filter (isBottom origin) := by
          simp [inside,bottom_exact,empty]
        rw [noBottom] at member
        cases member
    · next someBottom =>
      apply closeFrom_outcome ordered progress
      obtain ⟨t,member⟩ := List.exists_mem_of_ne_nil _ someBottom
      obtain ⟨inside,empty⟩ := List.mem_filter.mp member
      exact ⟨t,List.mem_range.mp inside,(bottom_exact _ _).mp empty⟩

theorem close_succeeds (origin : Relation) (names : Array String) (ordered : Ordered origin) :
    (∃ passes, (close origin names).passes = .ok passes) ↔ ∀ t, t < origin.size → Grounded origin t := by
  have outcome := close_outcome origin names ordered
  constructor
  · rintro ⟨passes,succeeded⟩
    exact outcome.succeeded passes succeeded
  · intro all
    cases ended : (close origin names).passes with
    | ok passes => exact ⟨passes,rfl⟩
    | error flaw =>
      obtain ⟨work,left,_,open_,_⟩ := outcome.failed flaw ended
      obtain ⟨t,member⟩ := List.exists_mem_of_ne_nil _ left
      obtain ⟨inside,ungrounded⟩ := (open_ t).mp member
      exact absurd (all t inside) ungrounded

end TimePetri.Priority
