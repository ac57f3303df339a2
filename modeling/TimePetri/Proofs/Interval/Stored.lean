import TimePetri.Interval.Basic
import TimePetri.Proofs.Checked

namespace TimePetri.Interval

variable {i other result : Interval}

structure Declared (i : Interval) : Prop where
  left : ∃ v, i.left.value? = some v ∧ 0 ≤ v.toInt
  right : ∀ v, i.right.value? = some v → 0 ≤ v.toInt
  inhabited : i.isEmpty = false

-- A table holds an interval that excludes nothing in one form only.
def Stored (i : Interval) : Prop := i = .unconstrained ∨ Declared i ∧ i.isTrivial = false

theorem Declared.initialized (declared : Declared i) : i.isUninitialized = false := by
  obtain ⟨v,value,_⟩ := declared.left
  unfold isUninitialized Bound.isInfinite
  cases left : i.left with
  | infinite => rw [left] at value; cases value
  | closed => rfl
  | opened => rfl

theorem inhabited_exact (i result : Interval) : i.inhabited = .ok result ↔ i.isEmpty = false ∧ result = i := by
  unfold inhabited
  cases i.isEmpty <;> simp [eq_comm]

theorem tighterLeft_cases (current other : Bound) :
    tighterLeft current other = current ∨ tighterLeft current other = other := by
  unfold tighterLeft
  split
  · split
    · exact .inr rfl
    · exact .inl rfl
  · exact .inl rfl

theorem tighterRight_cases (current other : Bound) :
    tighterRight current other = current ∨ tighterRight current other = other := by
  unfold tighterRight
  split
  · exact .inl rfl
  · exact .inr rfl
  · split
    · exact .inr rfl
    · exact .inl rfl

theorem make_declared (left right : Bound) (low : ∀ v, left.value? = some v → 0 ≤ v.toInt)
    (high : ∀ v, right.value? = some v → 0 ≤ v.toInt) (made : make left right = .ok result) : Declared result := by
  unfold make at made
  cases left with
  | infinite => cases made
  | closed v =>
    obtain ⟨inhabited,rfl⟩ := (inhabited_exact _ _).mp made
    exact ⟨⟨v,rfl,low v rfl⟩,high,inhabited⟩
  | opened v =>
    obtain ⟨inhabited,rfl⟩ := (inhabited_exact _ _).mp made
    exact ⟨⟨v,rfl,low v rfl⟩,high,inhabited⟩

theorem make_exact (declared : Declared i) : make i.left i.right = .ok i := by
  unfold make
  rw [show i.left.isInfinite = false from declared.initialized,if_neg (by simp)]
  exact (inhabited_exact _ _).mpr ⟨declared.inhabited,rfl⟩

theorem intersection_declared (stored : Stored i) (declared : Declared other)
    (intersected : i.intersection other = .ok result) : Declared result := by
  unfold intersection at intersected
  rw [declared.initialized,if_neg (by simp)] at intersected
  rcases stored with rfl | ⟨current,_⟩
  · obtain ⟨_,rfl⟩ := (inhabited_exact _ _).mp intersected
    exact declared
  · rw [current.initialized,if_neg (by simp)] at intersected
    obtain ⟨inhabited,rfl⟩ := (inhabited_exact _ _).mp intersected
    refine ⟨?_,?_,inhabited⟩
    · change ∃ v, (tighterLeft i.left other.left).value? = some v ∧ _
      rcases tighterLeft_cases i.left other.left with kept | taken
      · rw [kept]; exact current.left
      · rw [taken]; exact declared.left
    · change ∀ v, (tighterRight i.right other.right).value? = some v → _
      rcases tighterRight_cases i.right other.right with kept | taken
      · rw [kept]; exact current.right
      · rw [taken]; exact declared.right

theorem normalize_stored (declared : Declared i) : Stored i.normalize := by
  unfold normalize
  cases constrains : i.isTrivial with
  | true => exact .inl rfl
  | false => exact .inr ⟨declared,constrains⟩

theorem stored_trivial (stored : Stored i) (excludesNothing : i.isTrivial = true) : i = .unconstrained := by
  rcases stored with same | ⟨_,constrains⟩
  · exact same
  · rw [constrains] at excludesNothing; cases excludesNothing

theorem stored_declared (stored : Stored i) (constrains : i.isTrivial = false) : Declared i := by
  rcases stored with rfl | ⟨declared,_⟩
  · cases constrains
  · exact declared

theorem intersection_first (declared : Declared i) : unconstrained.intersection i = .ok i := by
  unfold intersection
  rw [declared.initialized,if_neg (by simp)]
  exact (inhabited_exact _ _).mpr ⟨declared.inhabited,rfl⟩

theorem normalize_first (constrains : i.isTrivial = false) : i.normalize = i := by
  simp [normalize,constrains]

end TimePetri.Interval
