import TimePetri.Proofs.Interval.Intersection

namespace TimePetri

namespace Bound

variable {a b c : Bound} {v w : Int64} {x : ℚ}

theorem valueOrder_exact (v w : Int64) (tie result : Ordering) :
    compare.valueOrder v w tie = result ↔ v < w ∧ result = .lt ∨ w < v ∧ result = .gt ∨ v = w ∧ tie = result := by
  unfold compare.valueOrder
  by_cases less : v < w
  · simp [less,Int64.ne_of_lt less,Int64.lt_asymm less,eq_comm]
  · by_cases greater : w < v
    · simp [less,greater,(Int64.ne_of_lt greater).symm,eq_comm]
    · have same : v = w := Int64.le_antisymm (Int64.not_lt.mp greater) (Int64.not_lt.mp less)
      simp [same]

theorem valueOrder_swap (v w : Int64) (tie : Ordering) :
    compare.valueOrder w v tie.swap = (compare.valueOrder v w tie).swap := by
  rw [valueOrder_exact]
  rcases (valueOrder_exact v w tie _).mp rfl with ⟨less,order⟩ | ⟨greater,order⟩ | ⟨same,order⟩
  · exact .inr (.inl ⟨less,congrArg Ordering.swap order⟩)
  · exact .inl ⟨greater,congrArg Ordering.swap order⟩
  · exact .inr (.inr ⟨same.symm,congrArg Ordering.swap order⟩)

theorem compare_swap (finite : a.isInfinite = false) (otherFinite : b.isInfinite = false) :
    b.compare a = (a.compare b).swap := by
  cases a with
  | infinite => cases finite
  | closed v =>
    cases b with
    | infinite => cases otherFinite
    | closed w => exact valueOrder_swap v w .eq
    | opened w => exact valueOrder_swap v w .gt
  | opened v =>
    cases b with
    | infinite => cases otherFinite
    | closed w => exact valueOrder_swap v w .lt
    | opened w => exact valueOrder_swap v w .eq

theorem compare_eq : a.compare b = .eq ↔ a = b ∧ a.isInfinite = false := by
  cases a <;> cases b <;> simp [compare,valueOrder_exact,isInfinite]

theorem infinite_beyond (value : b.value? = some w) : ∃ x, infinite.Ends x ∧ ¬ b.Ends x := by
  refine ⟨time w + 1,True.intro,fun ends => ?_⟩
  rcases (ends_value value).mp ends with below | ⟨here,_⟩ <;> linarith

theorem ends_beyond (value : a.value? = some v) (other : b.value? = some w) :
    (∃ x, a.Ends x ∧ ¬ b.Ends x) ↔ w < v ∨ v = w ∧ a.isOpen = false ∧ b.isOpen = true := by
  simp only [ends_value value,ends_value other,not_or,not_and,Bool.not_eq_false,not_lt]
  constructor
  · rintro ⟨x,before | ⟨rfl,closed⟩,past,meets⟩
    · exact .inl (time_lt.mp (past.trans_lt before))
    · rcases past.lt_or_eq with later | here
      · exact .inl (time_lt.mp later)
      · exact .inr ⟨(time_injective here).symm,closed,meets here.symm⟩
  · rintro (less | ⟨rfl,closed,opened⟩)
    · obtain ⟨x,past,before⟩ := exists_between (time_lt.mpr less)
      exact ⟨x,.inl before,past.le,fun here => absurd here past.ne'⟩
    · exact ⟨time v,.inr ⟨rfl,closed⟩,le_refl _,fun _ => opened⟩

-- This holds of infinite bounds too, where less and equal are not told apart.
theorem compare_gt : a.compare b = .gt ↔ ∃ x, a.Ends x ∧ ¬ b.Ends x := by
  cases b with
  | infinite => simp [compare,Ends]
  | closed w | opened w =>
    cases a with
    | infinite => exact iff_of_true rfl (infinite_beyond rfl)
    | closed v | opened v =>
      rw [ends_beyond rfl rfl]
      simp [compare,valueOrder_exact,isOpen]

theorem compare_within (within : a.compare b ≠ .gt) (ends : a.Ends x) : b.Ends x :=
  of_not_not fun passed => within (compare_gt.mpr ⟨x,ends,passed⟩)

theorem compare_beyond (beyond : a.compare b = .gt) (ends : b.Ends x) : a.Ends x := by
  obtain ⟨y,later,passed⟩ := compare_gt.mp beyond
  refine ends_earlier later (le_of_not_ge fun before => ?_)
  exact passed (ends_earlier ends before)

theorem min_ends (a b : Bound) (x : ℚ) : (a.min b).Ends x ↔ a.Ends x ∧ b.Ends x := by
  unfold min
  split
  · next beyond => exact (and_iff_right_of_imp (compare_beyond beyond)).symm
  · next within => exact (and_iff_left_of_imp (compare_within within)).symm

theorem max_ends (a b : Bound) (x : ℚ) : (a.max b).Ends x ↔ a.Ends x ∨ b.Ends x := by
  unfold max
  split
  · next beyond => exact (or_iff_left_of_imp (compare_beyond beyond)).symm
  · next within => exact (or_iff_right_of_imp (compare_within within)).symm

-- What holds of the lesser and the greater one of bounds. Each law is one of the sets of
-- rational numbers below them.
structure LatticeLaws (a b c : Bound) : Prop where
  lesser : ∀ x, (a.min b).Ends x ↔ a.Ends x ∧ b.Ends x
  greater : ∀ x, (a.max b).Ends x ↔ a.Ends x ∨ b.Ends x
  commutes : a.min b = b.min a ∧ a.max b = b.max a
  associates : (a.min b).min c = a.min (b.min c) ∧ (a.max b).max c = a.max (b.max c)
  repeats : a.min a = a ∧ a.max a = a
  absorbs : a.min (a.max b) = a ∧ a.max (a.min b) = a

theorem lattice_laws (a b c : Bound) : LatticeLaws a b c := by
  constructor
  case lesser => exact min_ends a b
  case greater => exact max_ends a b
  case commutes =>
    refine ⟨ends_unique fun x => ?_,ends_unique fun x => ?_⟩
    · rw [min_ends,min_ends,and_comm]
    · rw [max_ends,max_ends,or_comm]
  case associates =>
    refine ⟨ends_unique fun x => ?_,ends_unique fun x => ?_⟩
    · simp only [min_ends,and_assoc]
    · simp only [max_ends,or_assoc]
  case repeats =>
    refine ⟨ends_unique fun x => ?_,ends_unique fun x => ?_⟩
    · rw [min_ends,and_self_iff]
    · rw [max_ends,or_self_iff]
  case absorbs =>
    refine ⟨ends_unique fun x => ?_,ends_unique fun x => ?_⟩
    · rw [min_ends,max_ends]
      exact and_iff_left_of_imp .inl
    · rw [max_ends,min_ends]
      exact or_iff_left_of_imp And.left

structure Ranked (a b c : Bound) : Prop where
  reverses : b.compare a = (a.compare b).swap
  equal : a.compare b = .eq ↔ a = b
  transitive : a.compare b ≠ .gt → b.compare c ≠ .gt → a.compare c ≠ .gt
  total : a.compare b ≠ .gt ∨ b.compare a ≠ .gt

theorem compare_ranked (finite : a.isInfinite = false) (otherFinite : b.isInfinite = false) (c : Bound) : Ranked a b c := by
  have swapped := compare_swap finite otherFinite
  constructor
  case reverses => exact swapped
  case equal => exact compare_eq.trans (and_iff_left finite)
  case transitive =>
    intro first second beyond
    obtain ⟨x,ends,passed⟩ := compare_gt.mp beyond
    exact passed (compare_within second (compare_within first ends))
  case total =>
    rw [swapped]
    cases a.compare b <;> simp

end Bound

namespace Interval

open TimePetri.Bound

variable {i other : Interval}

theorem tighterRight_min (a b : Bound) : tighterRight a b = a.min b :=
  ends_unique fun x => (tighterRight_ends a b x).trans (min_ends a b x).symm

theorem intersection_right (one : i.isUninitialized = false) (two : other.isUninitialized = false) :
    ∃ result, result.right = i.right.min other.right ∧
      (i.intersection other = .ok result ∨ i.intersection other = .error (.empty result)) := by
  refine ⟨i.meet other,tighterRight_min i.right other.right,?_⟩
  rcases intersection_contains one two with ⟨intersected,_⟩ | ⟨refused,_⟩
  · exact .inl intersected
  · exact .inr refused

end Interval

namespace Bound

-- An infinite bound counts as less than itself. So the comparison is an order of finite
-- bounds only, while the lattice is one of all of them.
theorem bounds_lattice :
    (∀ a b c, LatticeLaws a b c) ∧
    infinite.compare infinite = .lt ∧
    (∀ a b c : Bound, a.isInfinite = false → b.isInfinite = false → Ranked a b c) ∧
    ∀ i other : Interval, i.isUninitialized = false →
      (other.isUninitialized = false → ∃ result, result.right = i.right.min other.right ∧
        (i.intersection other = .ok result ∨ i.intersection other = .error (.empty result))) ∧
      (other.isUninitialized = true → i.intersection other = .error .uninitialized) := by
  refine ⟨lattice_laws,rfl,fun a b c one two => compare_ranked one two c,fun i other one => ⟨?_,fun unset => ?_⟩⟩
  · exact Interval.intersection_right one
  · exact if_pos unset

theorem bounds_lattice_tied :
    (opened 2).isInfinite = false ∧ (closed 2).isInfinite = false ∧ Ranked (opened 2) (closed 2) infinite ∧
      LatticeLaws (opened 2) (closed 2) infinite ∧
      Interval.isUninitialized ⟨.closed 1,.closed 4⟩ = false ∧ Interval.isUninitialized ⟨.closed 4,.opened 4⟩ = false ∧
      ∃ result : Interval, result.right = .opened 4 ∧
        (Interval.intersection ⟨.closed 1,.closed 4⟩ ⟨.closed 4,.opened 4⟩ = .ok result ∨
          Interval.intersection ⟨.closed 1,.closed 4⟩ ⟨.closed 4,.opened 4⟩ = .error (.empty result)) := by
  obtain ⟨laws,_,ranked,intersected⟩ := bounds_lattice
  have one : Interval.isUninitialized ⟨.closed 1,.closed 4⟩ = false := by decide
  have two : Interval.isUninitialized ⟨.closed 4,.opened 4⟩ = false := by decide
  have lesser : (closed 4).min (opened 4) = opened 4 := by decide
  exact ⟨rfl,rfl,ranked _ _ _ rfl rfl,laws _ _ _,one,two,lesser ▸ (intersected _ _ one).1 two⟩

end Bound

end TimePetri
