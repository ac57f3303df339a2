import Mathlib.Algebra.Order.Field.Basic
import Mathlib.Algebra.Order.Field.Rat
import Mathlib.Data.Int.CharZero
import Mathlib.Tactic.Linarith
import TimePetri.Proofs.Interval.Stored

namespace TimePetri

namespace Bound

variable {α : Type} [LinearOrder α] {place : Int64 → α} {b c : Bound} {v w : Int64} {x y : ℚ}

-- What lies past a bound, in the direction in which the order goes.
def Past (place : Int64 → α) (b : Bound) (x : α) : Prop :=
  match b with
  | infinite => True
  | closed v => place v ≤ x
  | opened v => place v < x

theorem past_later {near far : α} (past : b.Past place near) (le : near ≤ far) : b.Past place far := by
  cases b with
  | infinite => trivial
  | closed v => exact le_trans past le
  | opened v => exact lt_of_lt_of_le past le

theorem past_value {x : α} (value : b.value? = some v) :
    b.Past place x ↔ place v < x ∨ place v = x ∧ b.isOpen = false := by
  cases b with
  | infinite => cases value
  | closed u => cases value; simp [Past,isOpen,le_iff_lt_or_eq]
  | opened u => cases value; simp [Past,isOpen]

theorem past_unique [DenselyOrdered α] [NoMinOrder α] (injective : Function.Injective place)
    (same : ∀ x, b.Past place x ↔ c.Past place x) : b = c := by
  have bounded {d : Bound} {u : Int64} (value : d.value? = some u) (all : ∀ x, d.Past place x) : False := by
    obtain ⟨x,before⟩ := exists_lt (place u)
    rcases (past_value value).mp (all x) with after | ⟨here,_⟩
    · exact lt_asymm before after
    · exact before.ne here.symm
  have mixed {u t : Int64} (same : ∀ x, (closed u).Past place x ↔ (opened t).Past place x) : False := by
    obtain ⟨x,above,below⟩ := exists_between ((same (place u)).mp (le_refl _))
    exact not_le.mpr below ((same x).mpr above)
  cases b with
  | infinite =>
    cases c with
    | infinite => rfl
    | closed u | opened u => exact (bounded rfl fun x => (same x).mp trivial).elim
  | closed u =>
    cases c with
    | infinite => exact (bounded rfl fun x => (same x).mpr trivial).elim
    | closed t => exact congrArg closed (injective (eq_of_forall_ge_iff same))
    | opened t => exact (mixed same).elim
  | opened u =>
    cases c with
    | infinite => exact (bounded rfl fun x => (same x).mpr trivial).elim
    | closed t => exact (mixed fun x => (same x).symm).elim
    | opened t => exact congrArg opened (injective (eq_of_forall_gt_iff same))

def time (v : Int64) : ℚ := v.toInt

def Starts (b : Bound) (x : ℚ) : Prop :=
  match b with
  | infinite => True
  | closed v => time v ≤ x
  | opened v => time v < x

def Ends (b : Bound) (x : ℚ) : Prop :=
  match b with
  | infinite => True
  | closed v => x ≤ time v
  | opened v => x < time v

-- An upper bound is a lower one in the direction to zero.
def timeBack (v : Int64) : ℚᵒᵈ := OrderDual.toDual (time v)

theorem starts_past : b.Starts x ↔ b.Past time x := by cases b <;> rfl

theorem ends_past : b.Ends x ↔ b.Past timeBack (OrderDual.toDual x) := by cases b <;> rfl

theorem time_lt : time v < time w ↔ v < w := Int.cast_lt.trans Int64.lt_iff_toInt_lt.symm

theorem time_injective : Function.Injective time := fun _ _ same => Int64.toInt_inj.mp (Int.cast_injective same)

theorem starts_later (starts : b.Starts x) (le : x ≤ y) : b.Starts y :=
  starts_past.mpr (past_later (starts_past.mp starts) le)

theorem ends_earlier (ends : b.Ends y) (le : x ≤ y) : b.Ends x :=
  ends_past.mpr (past_later (ends_past.mp ends) (OrderDual.toDual_le_toDual.mpr le))

theorem starts_value (value : b.value? = some v) : b.Starts x ↔ time v < x ∨ time v = x ∧ b.isOpen = false :=
  starts_past.trans (past_value value)

theorem ends_value (value : b.value? = some v) : b.Ends x ↔ x < time v ∨ x = time v ∧ b.isOpen = false :=
  (ends_past.trans (past_value value)).trans (or_congr .rfl (and_congr eq_comm .rfl))

theorem starts_unique (same : ∀ x, b.Starts x ↔ c.Starts x) : b = c :=
  past_unique time_injective fun x => starts_past.symm.trans ((same x).trans starts_past)

theorem ends_unique (same : ∀ x, b.Ends x ↔ c.Ends x) : b = c := by
  have injective : Function.Injective timeBack := fun _ _ back => time_injective back
  exact past_unique injective fun x => ends_past.symm.trans ((same (OrderDual.ofDual x)).trans ends_past)

theorem value_none (none : b.value? = none) : b = infinite := by
  cases b with
  | infinite => rfl
  | closed | opened => cases none

end Bound

namespace Interval

open TimePetri.Bound

variable {i j other result : Interval} {x : ℚ} {v : Int64}

def Contains (i : Interval) (x : ℚ) : Prop := i.left.Starts x ∧ i.right.Ends x

-- The times of an interval are the rational numbers from zero on that it does not exclude.
def Admits (i : Interval) (x : ℚ) : Prop := 0 ≤ x ∧ i.left.Starts x ∧ i.right.Ends x

theorem unconstrained_admits (x : ℚ) : unconstrained.Admits x ↔ 0 ≤ x := by
  simp [Admits,unconstrained,Starts,Ends]

theorem trivial_admits (x : ℚ) : trivial.Admits x ↔ 0 ≤ x := by
  simp [Admits,trivial,Starts,Ends,time]

theorem trivial_declared : Declared trivial := ⟨⟨0,rfl,by decide⟩,nofun,rfl⟩

theorem isEmpty_contains (value : i.left.value? = some v) : i.isEmpty = false ↔ ∃ x, i.Contains x := by
  cases ending : i.right.value? with
  | none =>
    have endless : i.right = infinite := value_none ending
    have room : i.isEmpty = false := by rw [isEmpty,value,ending]
    refine iff_of_true room ⟨time v + 1,(starts_value value).mpr (.inl (by linarith)),?_⟩
    rw [endless]
    trivial
  | some w =>
    have room : i.isEmpty = false ↔ v < w ∨ v = w ∧ i.left.isOpen = false ∧ i.right.isOpen = false := by
      unfold isEmpty
      rw [value,ending]
      simp only [Bool.or_eq_false_iff,decide_eq_false_iff_not,Bool.and_eq_false_imp,decide_eq_true_iff]
      rw [Int64.not_lt,Int64.le_iff_lt_or_eq]
      grind
    rw [room]
    constructor
    · rintro (less | ⟨rfl,leftClosed,rightClosed⟩)
      · obtain ⟨x,above,below⟩ := exists_between (time_lt.mpr less)
        exact ⟨x,(starts_value value).mpr (.inl above),(ends_value ending).mpr (.inl below)⟩
      · exact ⟨time v,(starts_value value).mpr (.inr ⟨rfl,leftClosed⟩),(ends_value ending).mpr (.inr ⟨rfl,rightClosed⟩)⟩
    · rintro ⟨x,starts,ends⟩
      rcases (starts_value value).mp starts with above | ⟨rfl,leftClosed⟩
      · rcases (ends_value ending).mp ends with below | ⟨rfl,_⟩
        · exact .inl (time_lt.mp (above.trans below))
        · exact .inl (time_lt.mp above)
      · rcases (ends_value ending).mp ends with below | ⟨here,rightClosed⟩
        · exact .inl (time_lt.mp below)
        · exact .inr ⟨time_injective here,leftClosed,rightClosed⟩

theorem contains_admits (value : i.left.value? = some v) (nonneg : 0 ≤ v.toInt) (x : ℚ) : i.Contains x ↔ i.Admits x := by
  refine ⟨fun contains => ⟨?_,contains⟩,And.right⟩
  have low : (0 : ℚ) ≤ time v := Int.cast_nonneg nonneg
  rcases (starts_value value).mp contains.1 with above | ⟨here,_⟩
  · exact low.trans above.le
  · exact low.trans here.le

theorem isEmpty_exact (value : i.left.value? = some v) (nonneg : 0 ≤ v.toInt) :
    i.isEmpty = false ↔ ∃ x, i.Admits x :=
  (isEmpty_contains value).trans (exists_congr (contains_admits value nonneg))

theorem declared_times (declared : Declared i) : ∃ x, i.Admits x := by
  obtain ⟨v,value,nonneg⟩ := declared.left
  exact (isEmpty_exact value nonneg).mp declared.inhabited

theorem stored_times (stored : Stored i) : ∃ x, i.Admits x := by
  rcases stored with rfl | ⟨declared,_⟩
  · exact ⟨0,(unconstrained_admits 0).mpr (le_refl 0)⟩
  · exact declared_times declared

theorem tighterLeft_starts {a b : Bound} {w : Int64} (value : a.value? = some v) (other : b.value? = some w) (x : ℚ) :
    (tighterLeft a b).Starts x ↔ a.Starts x ∧ b.Starts x := by
  unfold tighterLeft
  simp only [value,other,Bool.or_eq_true,decide_eq_true_iff,Bool.and_eq_true]
  split
  · next tighter =>
    refine ⟨fun starts => ⟨(starts_value value).mpr (.inl ?_),starts⟩,And.right⟩
    rcases (starts_value other).mp starts with above | ⟨rfl,closed⟩ <;> rcases tighter with less | ⟨rfl,isOpen⟩
    · exact (time_lt.mpr less).trans above
    · exact above
    · exact time_lt.mpr less
    · rw [closed] at isOpen; cases isOpen
  · next looser =>
    rw [not_or,Int64.not_lt,Int64.le_iff_lt_or_eq] at looser
    refine ⟨fun starts => ⟨starts,(starts_value other).mpr ?_⟩,And.left⟩
    rcases (starts_value value).mp starts with above | ⟨rfl,closed⟩ <;> rcases looser.1 with less | rfl
    · exact .inl ((time_lt.mpr less).trans above)
    · exact .inl above
    · exact .inl (time_lt.mpr less)
    · exact .inr ⟨rfl,by simpa using looser.2⟩

theorem tighterRight_ends (a b : Bound) (x : ℚ) : (tighterRight a b).Ends x ↔ a.Ends x ∧ b.Ends x := by
  unfold tighterRight
  split
  · next none => rw [value_none none]; exact (and_iff_left True.intro).symm
  · next none _ => rw [value_none none]; exact (and_iff_right True.intro).symm
  · next v w value other =>
    simp only [Bool.or_eq_true,decide_eq_true_iff,Bool.and_eq_true]
    split
    · next tighter =>
      refine ⟨fun ends => ⟨(ends_value value).mpr (.inl ?_),ends⟩,And.right⟩
      rcases (ends_value other).mp ends with below | ⟨rfl,closed⟩ <;> rcases tighter with less | ⟨rfl,isOpen⟩
      · exact below.trans (time_lt.mpr less)
      · exact below
      · exact time_lt.mpr less
      · rw [closed] at isOpen; cases isOpen
    · next looser =>
      rw [not_or,Int64.not_lt,Int64.le_iff_lt_or_eq] at looser
      refine ⟨fun ends => ⟨ends,(ends_value other).mpr ?_⟩,And.left⟩
      rcases (ends_value value).mp ends with below | ⟨rfl,closed⟩ <;> rcases looser.1 with less | rfl
      · exact .inl (below.trans (time_lt.mpr less))
      · exact .inl below
      · exact .inl (time_lt.mpr less)
      · exact .inr ⟨rfl,by simpa using looser.2⟩

def meet (i other : Interval) : Interval := ⟨tighterLeft i.left other.left,tighterRight i.right other.right⟩

theorem initialized_value (initialized : i.isUninitialized = false) : ∃ v, i.left.value? = some v := by
  obtain ⟨left,right⟩ := i
  cases left with
  | infinite => cases initialized
  | closed v | opened v => exact ⟨v,rfl⟩

theorem meet_starts (one : i.isUninitialized = false) (two : other.isUninitialized = false) (x : ℚ) :
    (i.meet other).left.Starts x ↔ i.left.Starts x ∧ other.left.Starts x := by
  obtain ⟨v,value⟩ := initialized_value one
  obtain ⟨w,otherValue⟩ := initialized_value two
  exact tighterLeft_starts value otherValue x

theorem meet_ends (i other : Interval) (x : ℚ) :
    (i.meet other).right.Ends x ↔ i.right.Ends x ∧ other.right.Ends x := tighterRight_ends i.right other.right x

theorem intersection_meet (one : i.isUninitialized = false) (two : other.isUninitialized = false) :
    i.intersection other = (i.meet other).inhabited := by
  unfold intersection
  rw [two,if_neg (by simp),one,if_neg (by simp),meet]

theorem intersection_times (stored : Stored i) (declared : Declared other) :
    (∃ result, i.intersection other = .ok result ∧ Declared result ∧ ∀ x, result.Admits x ↔ i.Admits x ∧ other.Admits x) ∨
      (∃ empty, i.intersection other = .error (.empty empty)) ∧ ¬ ∃ x, i.Admits x ∧ other.Admits x := by
  rcases stored with rfl | ⟨current,constrains⟩
  · refine .inl ⟨other,intersection_first declared,declared,fun x => ?_⟩
    rw [unconstrained_admits]
    exact ⟨fun admits => ⟨admits.1,admits⟩,And.right⟩
  · have both : ∀ x, (i.meet other).Admits x ↔ i.Admits x ∧ other.Admits x := by
      intro x
      rw [Admits,meet_starts current.initialized declared.initialized,meet_ends,Admits,Admits]
      tauto
    have intersected := intersection_meet current.initialized declared.initialized
    have starts : ∃ u, (i.meet other).left.value? = some u ∧ 0 ≤ u.toInt := by
      unfold meet
      rcases tighterLeft_cases i.left other.left with kept | taken
      · rw [kept]; exact current.left
      · rw [taken]; exact declared.left
    obtain ⟨u,meetingValue,nonneg⟩ := starts
    have room := isEmpty_exact meetingValue nonneg
    simp only [both] at room
    cases occupied : (i.meet other).isEmpty with
    | false =>
      have result : i.intersection other = .ok (i.meet other) :=
        intersected.trans ((inhabited_exact _ _).mpr ⟨occupied,rfl⟩)
      exact .inl ⟨i.meet other,result,intersection_declared (.inr ⟨current,constrains⟩) declared result,both⟩
    | true =>
      refine .inr ⟨⟨i.meet other,?_⟩,room.not.mp (by simp [occupied])⟩
      rw [intersected,inhabited,occupied]
      rfl

theorem normalize_admits (declared : Declared i) (x : ℚ) : i.normalize.Admits x ↔ i.Admits x := by
  unfold normalize
  split
  · next excludesNothing =>
    have same : i = trivial := by
      rw [isTrivial,declared.initialized,Bool.false_or,Bool.and_eq_true,decide_eq_true_iff] at excludesNothing
      cases i
      cases excludesNothing.1
      cases of_decide_eq_true excludesNothing.2
      rfl
    rw [same,unconstrained_admits,trivial_admits]
  · exact .rfl

theorem within_bounds (declared : Declared i) (within : ∀ x, i.Admits x → j.Admits x) :
    (∀ x, i.left.Starts x → j.left.Starts x) ∧ ∀ x, i.right.Ends x → j.right.Ends x := by
  obtain ⟨v,value,nonneg⟩ := declared.left
  obtain ⟨y,admits⟩ := declared_times declared
  have low : (0 : ℚ) ≤ time v := Int.cast_nonneg nonneg
  constructor
  · intro x starts
    rcases le_total x y with before | after
    · have above : time v ≤ x := by
        rcases (starts_value value).mp starts with above | ⟨here,_⟩
        · exact above.le
        · exact here.le
      exact (within x ⟨low.trans above,starts,ends_earlier admits.2.2 before⟩).2.1
    · exact starts_later (within y admits).2.1 after
  · intro x ends
    rcases le_total y x with after | before
    · exact (within x ⟨admits.1.trans after,starts_later admits.2.1 after,ends⟩).2.2
    · exact ends_earlier (within y admits).2.2 before

theorem declared_unique (one : Declared i) (two : Declared j) (same : ∀ x, i.Admits x ↔ j.Admits x) : i = j := by
  have forth := within_bounds one fun x => (same x).mp
  have back := within_bounds two fun x => (same x).mpr
  have left := starts_unique fun x => ⟨forth.1 x,back.1 x⟩
  have right := ends_unique fun x => ⟨forth.2 x,back.2 x⟩
  cases i; cases j; cases left; cases right; rfl

theorem stored_admits (stored : Stored i) : i = .unconstrained ↔ ∀ x, 0 ≤ x → i.Admits x := by
  constructor
  · rintro rfl x nonneg
    exact (unconstrained_admits x).mpr nonneg
  · intro all
    rcases stored with same | ⟨declared,constrains⟩
    · exact same
    · have same : i = trivial := declared_unique declared trivial_declared fun x =>
        ⟨fun admits => (trivial_admits x).mpr admits.1,fun admits => all x admits.1⟩
      rw [same] at constrains
      cases constrains

theorem stored_unique (one : Stored i) (two : Stored j) (same : ∀ x, i.Admits x ↔ j.Admits x) : i = j := by
  by_cases all : ∀ x, 0 ≤ x → i.Admits x
  · rw [(stored_admits one).mpr all,(stored_admits two).mpr fun x nonneg => (same x).mp (all x nonneg)]
  · rcases one with rfl | ⟨first,_⟩
    · exact absurd (fun x => (unconstrained_admits x).mpr) all
    · rcases two with rfl | ⟨second,_⟩
      · exact absurd (fun x nonneg => (same x).mpr ((unconstrained_admits x).mpr nonneg)) all
      · exact declared_unique first second same

end Interval

end TimePetri
