import TimePetri.Priority

namespace TimePetri.Priority

theorem half_member (x : Nat) (row : List Nat) (increasing : row.Pairwise (· < ·)) :
    x ∈ half x row ↔ x ∈ row := by
  have order : ∀ i j, i < j → ∀ (hi : i < row.length) (hj : j < row.length), row[i] < row[j] :=
    fun i j less hi hj => List.pairwise_iff_getElem.mp increasing i j hi hj less
  unfold half
  constructor
  · intro member
    split at member
    · exact List.mem_of_mem_take member
    · exact List.mem_of_mem_drop member
  · intro member
    obtain ⟨i,inRow,found⟩ := List.getElem_of_mem member
    have middle : row.length / 2 < row.length := by omega
    have value : row.getD (row.length / 2) 0 = row[row.length / 2] := by simp [List.getD,middle]
    rw [value]
    split
    · next left =>
      have before : i < row.length / 2 := by
        apply Classical.byContradiction
        intro late
        rcases Nat.lt_or_eq_of_le (Nat.le_of_not_lt late) with less | same
        · have := order _ _ less middle inRow; omega
        · subst same; omega
      exact List.mem_take_iff_getElem.mpr ⟨i,by omega,found⟩
    · next right =>
      have after : row.length / 2 ≤ i := by
        apply Classical.byContradiction
        intro early
        have := order _ _ (Nat.lt_of_not_le early) inRow middle
        omega
      obtain ⟨step,rfl⟩ := Nat.exists_eq_add_of_le after
      exact List.mem_drop_iff_getElem.mpr ⟨step,by omega,found⟩

theorem half_increasing (x : Nat) (row : List Nat) (increasing : row.Pairwise (· < ·)) :
    (half x row).Pairwise (· < ·) := by
  unfold half
  split
  · exact increasing.sublist (List.take_sublist _ _)
  · exact increasing.sublist (List.drop_sublist _ _)

theorem search_exact (x : Nat) (row : List Nat) (increasing : row.Pairwise (· < ·)) :
    search x row = true ↔ x ∈ row := by
  fun_induction search x row with
  | case1 => simp
  | case2 y => simp [eq_comm]
  | case3 a b rest ih =>
    rw [ih (half_increasing _ _ increasing)]
    exact half_member _ _ increasing

end TimePetri.Priority
