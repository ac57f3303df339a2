import Mathlib.Data.List.Forall2
import TimePetri.Proofs.Priority.InPlace

namespace TimePetri.Priority

open Relation (TransGen ReflTransGen)

theorem find_least (p : Nat → Bool) (row : List Nat) (increasing : Increasing row) (t : Nat) :
    row.find? p = some t ↔ t ∈ row ∧ p t = true ∧ ∀ u ∈ row, u < t → p u = false := by
  induction row with
  | nil => simp
  | cons a rest ih =>
    obtain ⟨above,tail⟩ := List.pairwise_cons.mp increasing
    rw [List.find?_cons]
    cases hit : p a with
    | true =>
      constructor
      · intro found
        cases found
        refine ⟨by simp,hit,fun u member less => ?_⟩
        rcases List.mem_cons.mp member with rfl | later
        · exact absurd less (Nat.lt_irrefl _)
        · exact absurd (above u later) (Nat.lt_asymm less)
      · rintro ⟨member,_,first⟩
        rcases List.mem_cons.mp member with rfl | later
        · rfl
        · have missed := first a (by simp) (above t later)
          rw [hit] at missed
          cases missed
    | false =>
      dsimp only
      rw [ih tail]
      constructor
      · rintro ⟨member,named,first⟩
        refine ⟨List.mem_cons_of_mem _ member,named,fun u other less => ?_⟩
        rcases List.mem_cons.mp other with rfl | later
        · exact hit
        · exact first u later less
      · rintro ⟨member,named,first⟩
        refine ⟨?_,named,fun u later => first u (List.mem_cons_of_mem _ later)⟩
        rcases List.mem_cons.mp member with rfl | later
        · rw [hit] at named; cases named
        · exact later

-- A transition is told by its name, or by its number where there are no more names.
def Told (names : Array String) (t : Nat) (name : String) : Prop :=
  names[t]? = some name ∨ names.size ≤ t ∧ name = toString t

theorem told_exact : Told names t name ↔ nameOf names t = name := by
  unfold Told nameOf
  by_cases inside : t < names.size
  · simp [inside]
  · have outside : names.size ≤ t := Nat.le_of_not_lt inside
    simpa [outside] using eq_comm

theorem told_all (members : List Nat) (listed : List String) :
    List.Forall₂ (Told names) members listed ↔ members.map (nameOf names) = listed := by
  have same : Told names = fun t name => nameOf names t = name := by
    funext t name
    exact propext told_exact
  rw [same,← List.forall₂_map_left_iff,List.forall₂_eq_eq_eq]

theorem ownLower_exact (ordered : Ordered relation) (u : Nat) :
    search u (lowerOf relation u) = true ↔ u ∈ lowerOf relation u :=
  search_exact u (lowerOf relation u) ((ordered_exact _).mp ordered u)

theorem stuck_ownLower (relation : Relation) (names : Array String) (work : List Nat) (ordered : Ordered relation)
    (increasing : Increasing work) (name : String) :
    stuck relation names work = .ownLower name ↔ ∃ t, Told names t name ∧
      t ∈ work ∧ t ∈ lowerOf relation t ∧ ∀ u ∈ work, u < t → u ∉ lowerOf relation u := by
  have reported : stuck relation names work = .ownLower name ↔ ∃ t, nameOf names t = name ∧
      work.find? (fun u => search u (lowerOf relation u)) = some t := by
    unfold stuck
    cases work.find? (fun u => search u (lowerOf relation u)) <;> simp
  simp only [reported,find_least _ _ increasing,told_exact,← Bool.not_eq_true,ownLower_exact ordered]

theorem stuck_cycle (relation : Relation) (names : Array String) (work : List Nat) (ordered : Ordered relation)
    (listed : List String) :
    stuck relation names work = .cycle listed ↔
      List.Forall₂ (Told names) work listed ∧ ∀ u ∈ work, u ∉ lowerOf relation u := by
  have reported : stuck relation names work = .cycle listed ↔
      work.map (nameOf names) = listed ∧ work.find? (fun u => search u (lowerOf relation u)) = none := by
    unfold stuck
    cases work.find? (fun u => search u (lowerOf relation u)) <;> simp
  rw [reported,told_all,List.find?_eq_none]
  simp only [ownLower_exact ordered]

theorem stuck_notMinimal (relation : Relation) (names : Array String) (work : List Nat) :
    stuck relation names work ≠ .noMinimal := by
  unfold stuck
  split <;> simp

theorem close_failure (relation : Relation) (names : Array String) (ordered : Ordered relation) :
    closeInPlace relation names = .ok (close relation names) ∧
    ∀ closed flaw, close relation names = ⟨closed,.error flaw⟩ →
      closed.size = relation.size ∧
      (∀ t, Resolvable relation t →
        Increasing (lowerOf closed t) ∧ ∀ u, u ∈ lowerOf closed t ↔ TransGen (Below relation) t u) ∧
      (∀ t, ¬ Resolvable relation t → lowerOf closed t = lowerOf relation t) ∧
      (flaw = .noMinimal ↔ 0 < relation.size ∧ ∀ t, t < relation.size → lowerOf relation t ≠ []) ∧
      (flaw ≠ .noMinimal →
        (∀ name, flaw = .ownLower name ↔ ∃ t, Told names t name ∧
          t < relation.size ∧ ¬ Resolvable relation t ∧ t ∈ lowerOf relation t ∧
          ∀ u, u < t → ¬ Resolvable relation u → u ∉ lowerOf relation u) ∧
        (∀ listed, flaw = .cycle listed ↔ ∃ members, List.Forall₂ (Told names) members listed ∧
          Increasing members ∧ (∀ t, t ∈ members ↔ t < relation.size ∧ ¬ Resolvable relation t) ∧
          ∀ u, u < relation.size → ¬ Resolvable relation u → u ∉ lowerOf relation u)) := by
  refine ⟨closeInPlace_exact relation names ordered,?_⟩
  intro closed flaw closure
  have outcome := close_outcome relation names ordered
  rw [closure] at outcome
  -- What is open at the last pass is what cannot be resolved.
  obtain ⟨work,left,increasing,open_,reason⟩ := outcome.failed flaw rfl
  have inhabited : 0 < relation.size := by
    obtain ⟨t,member⟩ := List.exists_mem_of_ne_nil _ left
    exact Nat.zero_lt_of_lt ((open_ t).mp member).1
  simp only [resolvable_exact]
  refine ⟨outcome.size,fun t grounded => ⟨(outcome.complete t grounded).increasing,(outcome.complete t grounded).exact⟩,
    outcome.kept,?_,?_⟩
  · by_cases noBottom : ∀ t, t < relation.size → lowerOf relation t ≠ []
    · rw [reason,if_pos noBottom]
      exact iff_of_true rfl ⟨inhabited,noBottom⟩
    · rw [reason,if_neg noBottom]
      exact iff_of_false (stuck_notMinimal _ _ _) fun both => noBottom both.2
  · intro other
    have noBottom : ¬ ∀ t, t < relation.size → lowerOf relation t ≠ [] := by
      intro all
      rw [if_pos all] at reason
      exact other reason
    rw [if_neg noBottom] at reason
    subst reason
    refine ⟨fun name => ?_,fun listed => ?_⟩
    · rw [stuck_ownLower _ _ _ ordered increasing]
      refine exists_congr fun t => and_congr_right fun _ => ?_
      rw [open_,and_assoc]
      refine and_congr_right fun inside => and_congr_right fun _ => and_congr_right fun _ => forall_congr' fun u => ?_
      rw [open_]
      exact ⟨fun all less ungrounded => all ⟨Nat.lt_trans less inside,ungrounded⟩ less,fun all member less => all less member.2⟩
    · rw [stuck_cycle _ _ _ ordered]
      constructor
      · intro ⟨told,ownless⟩
        exact ⟨work,told,increasing,open_,fun u inside ungrounded => ownless u ((open_ u).mpr ⟨inside,ungrounded⟩)⟩
      · intro ⟨members,told,otherIncreasing,same,ownless⟩
        cases increasing_exact _ _ otherIncreasing increasing fun t => (same t).trans (open_ t).symm
        refine ⟨told,fun u member => ?_⟩
        obtain ⟨inside,ungrounded⟩ := (open_ u).mp member
        exact ownless u inside ungrounded

-- A cycle, something above it, a way out of the table, and a chain that closes. There are
-- names for the first two transitions only.
theorem close_failure_mixed :
    Ordered #[[1],[2],[1],[4],[5],[],[9]] ∧
      close #[[1],[2],[1],[4],[5],[],[9]] #["a","b"] =
        ⟨#[[1],[2],[1],[4,5],[5],[],[9]],.error (.cycle ["a","b","2","6"])⟩ ∧
      ∃ members, List.Forall₂ (Told #["a","b"]) members ["a","b","2","6"] ∧
        ∀ t, t ∈ members ↔ t < 7 ∧ ¬ Resolvable #[[1],[2],[1],[4],[5],[],[9]] t := by
  have closure : close #[[1],[2],[1],[4],[5],[],[9]] #["a","b"] =
      ⟨#[[1],[2],[1],[4,5],[5],[],[9]],.error (.cycle ["a","b","2","6"])⟩ := by cbv
  refine ⟨by decide,closure,?_⟩
  have diagnosis := ((close_failure _ _ (by decide)).2 _ _ closure).2.2.2.2 (by simp)
  obtain ⟨members,told,_,exact,_⟩ := (diagnosis.2 _).mp rfl
  exact ⟨members,told,exact⟩

end TimePetri.Priority
