import TimePetri.Proofs.Priority.Descent

namespace TimePetri.Priority

open Relation (TransGen ReflTransGen)

-- A list is complete for a transition of the original relation if it is the
-- increasing list of all that stands below it, directly or not.
structure Complete (origin : Relation) (t : Nat) (row : List Nat) : Prop where
  increasing : Increasing row
  exact : ∀ u, u ∈ row ↔ TransGen (Below origin) t u

theorem lowerOf_outside (relation : Relation) (t : Nat) (outside : ¬ t < relation.size) :
    lowerOf relation t = [] := by
  simp [lowerOf,Array.getElem?_eq_none (Nat.le_of_not_lt outside)]

theorem lowerOf_inside (some : lowerOf relation t ≠ []) : t < relation.size := by
  by_contra outside
  exact some (lowerOf_outside relation t outside)

theorem lowerOf_set (relation : Relation) (t u : Nat) (row : List Nat) (inside : t < relation.size) :
    lowerOf (relation.setIfInBounds t row) u = if u = t then row else lowerOf relation u := by
  unfold lowerOf
  rw [Array.getElem?_setIfInBounds]
  by_cases same : u = t
  · subst same; simp [inside]
  · simp [same,Ne.symm same]

theorem gathered_member (lists : Nat → List Nat) (lower start : List Nat) (u : Nat) :
    u ∈ lower.foldl (fun reached v => union reached (lists v)) start ↔ u ∈ start ∨ ∃ v ∈ lower, u ∈ lists v := by
  induction lower generalizing start with
  | nil => simp
  | cons v rest ih =>
    rw [List.foldl_cons,ih]
    simp [or_assoc]

theorem gathered_increasing (lists : Nat → List Nat) (lower start : List Nat) (first : Increasing start)
    (all : ∀ v ∈ lower, Increasing (lists v)) :
    Increasing (lower.foldl (fun reached v => union reached (lists v)) start) := by
  induction lower generalizing start with
  | nil => exact first
  | cons v rest ih =>
    rw [List.foldl_cons]
    exact ih _ (union_increasing _ _ first (all v (by simp))) fun w member => all w (List.mem_cons_of_mem _ member)

theorem below_step (origin : Relation) (t u : Nat) :
    TransGen (Below origin) t u ↔ Below origin t u ∨ ∃ v, Below origin t v ∧ TransGen (Below origin) v u := by
  constructor
  · intro path
    obtain ⟨v,below,reach⟩ := TransGen.head'_iff.mp path
    rcases Relation.reflTransGen_iff_eq_or_transGen.mp reach with rfl | further
    · exact .inl below
    · exact .inr ⟨v,below,further⟩
  · rintro (below | ⟨v,below,further⟩)
    · exact .single below
    · exact .head below further

theorem extended_complete (origin relation : Relation) (t : Nat) (ordered : Ordered origin)
    (kept : lowerOf relation t = lowerOf origin t)
    (lower : ∀ v, Below origin t v → Complete origin v (lowerOf relation v)) :
    Complete origin t (extended relation t) := by
  constructor
  · apply gathered_increasing
    · rw [kept]; exact (ordered_exact _).mp ordered t
    · intro v member
      rw [kept] at member
      exact (lower v member).increasing
  · intro u
    unfold extended
    rw [gathered_member,kept,below_step]
    refine or_congr Iff.rfl (exists_congr fun v => and_congr_right fun member => ?_)
    exact (lower v member).exact u

theorem replaced_size (rows : Nat → List Nat) (ready : List Nat) (start : Relation) :
    (ready.foldl (fun next t => next.setIfInBounds t (rows t)) start).size = start.size := by
  induction ready generalizing start with
  | nil => rfl
  | cons t rest ih => rw [List.foldl_cons,ih,Array.size_setIfInBounds]

theorem replaced_lowerOf (rows : Nat → List Nat) (ready : List Nat) (start : Relation) (u : Nat)
    (inside : ∀ t ∈ ready, t < start.size) :
    lowerOf (ready.foldl (fun next t => next.setIfInBounds t (rows t)) start) u =
      if u ∈ ready then rows u else lowerOf start u := by
  induction ready generalizing start with
  | nil => simp
  | cons t rest ih =>
    rw [List.foldl_cons,ih _ (by simpa using fun v member => inside v (List.mem_cons_of_mem _ member)),
      lowerOf_set _ _ _ _ (inside t (by simp))]
    by_cases same : u = t
    · subst same; simp
    · simp [same]

theorem pass_size (relation : Relation) (ready : List Nat) : (pass relation ready).size = relation.size :=
  replaced_size _ _ _

theorem pass_lowerOf (relation : Relation) (ready : List Nat) (u : Nat) (inside : ∀ t ∈ ready, t < relation.size) :
    lowerOf (pass relation ready) u = if u ∈ ready then extended relation u else lowerOf relation u :=
  replaced_lowerOf _ _ _ _ inside

-- Where a closure stands between two passes, whatever its lists are. What is open still
-- has the list it started with.
structure Standing (origin relation : Relation) (final work : List Nat) : Prop where
  size : relation.size = origin.size
  covers : ∀ t, t < origin.size ↔ t ∈ final ∨ t ∈ work
  apart : ∀ t ∈ final, t ∉ work
  increasing : Increasing work
  kept : ∀ t ∈ work, lowerOf relation t = lowerOf origin t

-- If the lists increase, what is final is grounded and has its complete list already.
structure Progress (origin relation : Relation) (final work : List Nat) : Prop
    extends Standing origin relation final work where
  grounded : ∀ t ∈ final, Grounded origin t
  complete : ∀ t ∈ final, Complete origin t (lowerOf relation t)

theorem ready_member (relation : Relation) (final work : List Nat) (t : Nat) :
    t ∈ readyAmong relation final work ↔ t ∈ work ∧ ∀ u, Below relation t u → u ∈ final := by
  simp [readyAmong,isReady,Below]

theorem open_member (relation : Relation) (final work : List Nat) (t : Nat) :
    t ∈ openAmong relation final work ↔ t ∈ work ∧ t ∉ readyAmong relation final work := by
  simp only [openAmong,readyAmong,List.mem_filter,not_and]
  exact and_congr_right fun member => by simp [member]

theorem Standing.inside (standing : Standing origin relation final work) (member : t ∈ work) : t < relation.size := by
  rw [standing.size]
  exact (standing.covers t).mpr (.inr member)

theorem Standing.ready_inside (standing : Standing origin relation final work)
    (ready : t ∈ readyAmong relation final work) : t < relation.size :=
  standing.inside ((ready_member _ _ _ _).mp ready).1

theorem Standing.ready_final (standing : Standing origin relation final work)
    (ready : t ∈ readyAmong relation final work) (below : Below origin t u) : u ∈ final := by
  obtain ⟨open_,lower⟩ := (ready_member _ _ _ _).mp ready
  apply lower
  unfold Below
  rwa [standing.kept t open_]

theorem pass_standing (standing : Standing origin relation final work) :
    Standing origin (pass relation (readyAmong relation final work)) (final ++ readyAmong relation final work)
      (openAmong relation final work) := by
  constructor
  case size => rw [pass_size]; exact standing.size
  case covers =>
    intro t
    rw [standing.covers,List.mem_append,open_member]
    have smaller := fun ready => ((ready_member relation final work t).mp ready).1
    grind
  case apart =>
    intro t member opened
    obtain ⟨inWork,unready⟩ := (open_member _ _ _ _).mp opened
    rcases List.mem_append.mp member with old | ready
    · exact standing.apart t old inWork
    · exact unready ready
  case increasing => exact List.Pairwise.filter _ standing.increasing
  case kept =>
    intro t opened
    obtain ⟨inWork,unready⟩ := (open_member _ _ _ _).mp opened
    rw [pass_lowerOf _ _ _ fun _ => standing.ready_inside,if_neg unready]
    exact standing.kept t inWork

theorem pass_progress (ordered : Ordered origin) (progress : Progress origin relation final work) :
    Progress origin (pass relation (readyAmong relation final work)) (final ++ readyAmong relation final work)
      (openAmong relation final work) := by
  refine { pass_standing progress.toStanding with grounded := ?_, complete := ?_ }
  · intro t member
    rcases List.mem_append.mp member with old | ready
    · exact progress.grounded t old
    · refine .intro t (progress.size ▸ progress.ready_inside ready) fun u below => ?_
      exact progress.grounded u (progress.ready_final ready below)
  · intro t member
    rw [pass_lowerOf _ _ _ fun _ => progress.ready_inside]
    rcases List.mem_append.mp member with old | ready
    · rw [if_neg fun ready => progress.apart t old ((ready_member _ _ _ _).mp ready).1]
      exact progress.complete t old
    · rw [if_pos ready]
      have inWork := ((ready_member _ _ _ _).mp ready).1
      -- What is final has its complete list already, so one step down gathers everything.
      refine extended_complete _ _ _ ordered (progress.kept t inWork) fun v below => ?_
      exact progress.complete v (progress.ready_final ready below)

theorem Standing.finished (standing : Standing origin relation final work) (none : readyAmong relation final work = [])
    (grounded : Grounded origin t) : t ∈ final := by
  induction grounded with
  | intro t inTable _ ih =>
    rcases (standing.covers t).mp inTable with done | inWork
    · exact done
    · have ready : t ∈ readyAmong relation final work := by
        refine (ready_member _ _ _ _).mpr ⟨inWork,fun u below => ih u ?_⟩
        unfold Below at below
        rwa [standing.kept t inWork] at below
      rw [none] at ready
      cases ready

theorem Progress.stuck (progress : Progress origin relation final work) (none : readyAmong relation final work = []) :
    ∀ t, t ∈ work ↔ t < origin.size ∧ ¬ Grounded origin t := by
  intro t
  constructor
  · intro inWork
    refine ⟨(progress.covers t).mpr (.inr inWork),fun grounded => ?_⟩
    exact progress.apart t (progress.finished none grounded) inWork
  · rintro ⟨inside,ungrounded⟩
    rcases (progress.covers t).mp inside with done | inWork
    · exact absurd (progress.grounded t done) ungrounded
    · exact inWork

end TimePetri.Priority
