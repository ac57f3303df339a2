import TimePetri.Marking.Lemmas
import TimePetri.Proofs.Checked

namespace TimePetri

theorem word_range (w : Int64) : -wordLimit ≤ w.toInt ∧ w.toInt < wordLimit := by
  have low := Int64.le_toInt w
  have high := Int64.toInt_lt w
  unfold wordLimit
  omega

theorem word_zero (w : Int64) : w = 0 ↔ w.toInt = 0 := by
  rw [← Int64.toInt_inj,Int64.toInt_zero]

theorem checked_fits (operation : Operation) (n : Int) (low : -wordLimit ≤ n) (high : n < wordLimit) :
    ∃ w, checked operation n = .ok w ∧ w.toInt = n := by
  cases found : word? n with
  | none => have := (word?_none n).mp found; omega
  | some w => exact ⟨w,by simp [checked,found],(word?_exact n w).mp found⟩

theorem checked_error (operation : Operation) (n : Int) (fault : Fault) :
    checked operation n = .error fault ↔ fault = .overflow operation ∧ (n < -wordLimit ∨ wordLimit ≤ n) := by
  rw [← word?_none]
  unfold checked
  cases word? n <;> simp [eq_comm]

theorem negWord_ok (a w : Int64) : negWord a = .ok w ↔ w.toInt = -a.toInt := checked_ok _ _ _

namespace Marking

variable {m next : Marking} {place size larger : Nat} {change : Int64}

def count (m : Marking) (place : Nat) : Int := (m.get place).toInt

@[simp] theorem count_empty (place : Nat) : empty.count place = 0 := Int64.toInt_zero

theorem count_range (m : Marking) (place : Nat) :
    -wordLimit ≤ m.count place ∧ m.count place < wordLimit := word_range _

@[simp] theorem count_set (m : Marking) (place : Nat) (w : Int64) (q : Nat) :
    (m.set place w).count q = if q = place then w.toInt else m.count q := by
  unfold count
  rw [get_set]
  split <;> rfl

theorem ext_count (m other : Marking) (same : ∀ place, m.count place = other.count place) : m = other :=
  ext_get m other fun place => Int64.toInt_inj.mp (same place)

theorem count_zero (m : Marking) (place : Nat) : m.get place = 0 ↔ m.count place = 0 := word_zero _

theorem addAt_count (added : m.addAt place change = .ok next) (q : Nat) :
    next.count q = m.count q + if q = place then change.toInt else 0 := addAt_get m next place change added q

theorem addAt_fits (m : Marking) (place : Nat) (change : Int64) (low : -wordLimit ≤ m.count place + change.toInt)
    (high : m.count place + change.toInt < wordLimit) : ∃ next, m.addAt place change = .ok next := by
  obtain ⟨w,total,_⟩ := checked_fits .add _ low high
  refine ⟨m.set place w,?_⟩
  unfold count at total
  simp [addAt,addWords,total]

theorem addAt_error (m : Marking) (place : Nat) (change : Int64) (fault : Fault)
    (failed : m.addAt place change = .error fault) :
    fault = .overflow .add ∧
      (m.count place + change.toInt < -wordLimit ∨ wordLimit ≤ m.count place + change.toInt) := by
  unfold addAt addWords at failed
  cases total : checked .add ((m.get place).toInt + change.toInt) with
  | ok w => rw [total] at failed; cases failed
  | error cause => rw [total] at failed; cases failed; exact (checked_error _ _ _).mp total

theorem addAt_zero (m : Marking) (place : Nat) (change : Int64) (zero : change.toInt = 0) :
    m.addAt place change = .ok m := by
  have range := m.count_range place
  obtain ⟨next,added⟩ := addAt_fits m place change (by omega) (by omega)
  have same : next = m := ext_count _ _ fun q => by
    rw [addAt_count added,zero]
    split <;> omega
  rw [added,same]

theorem update_get (pick : Int64 → Int64 → Int64) (m : Marking) (place : Nat) (value : Int64) (q : Nat) :
    (m.update pick place value).get q =
      if q = place ∧ value ≠ 0 then (if m.get place = 0 then value else pick (m.get place) value) else m.get q := by
  unfold update
  by_cases zero : value = 0
  · simp [zero]
  · by_cases absent : m.get place = 0 <;> by_cases here : q = place <;> simp [zero,absent,here,get_set]

theorem raise_count (m : Marking) (place : Nat) (value : Int64) (q : Nat) (nonneg : 0 ≤ value.toInt)
    (held : 0 ≤ m.count place) :
    (m.raise place value).count q = if q = place then max (m.count place) value.toInt else m.count q := by
  unfold count raise at *
  rw [update_get]
  by_cases here : q = place
  · subst here
    by_cases zero : value = 0
    · subst zero
      simp only [ne_eq,not_true_eq_false,and_false,if_false,if_true,Int64.toInt_zero]
      omega
    · by_cases absent : m.get q = 0
      · simp only [absent,zero,ne_eq,not_false_eq_true,and_true,if_true,Int64.toInt_zero]
        omega
      · have larger : max (m.get q) value = if m.get q ≤ value then value else m.get q := rfl
        simp only [zero,absent,larger,ne_eq,not_false_eq_true,and_true,if_true,if_false]
        split
        · next le => have := Int64.le_iff_toInt_le.mp le; omega
        · next gt => have := mt Int64.le_iff_toInt_le.mpr gt; omega
  · simp [here]

theorem lower_count (m : Marking) (place : Nat) (value : Int64) (q : Nat) :
    (m.lower place value).count q =
      if q = place ∧ value.toInt ≠ 0 then (if m.count place = 0 then value.toInt else min (m.count place) value.toInt)
      else m.count q := by
  unfold count lower
  rw [update_get]
  simp only [ne_eq,word_zero]
  split
  · split
    · rfl
    · have smaller : min (m.get place) value = if m.get place ≤ value then m.get place else value := rfl
      rw [smaller]
      split
      · next le => have := Int64.le_iff_toInt_le.mp le; omega
      · next gt => have := mt Int64.le_iff_toInt_le.mpr gt; omega
  · rfl

def Within (size : Nat) (m : Marking) : Prop := ∀ place, m.count place ≠ 0 → place < size

theorem within_empty (size : Nat) : Within size empty := fun place present => absurd (count_empty place) present

theorem within_more (more : size ≤ larger) (within : Within size m) : Within larger m :=
  fun place present => Nat.lt_of_lt_of_le (within place present) more

theorem within_change (within : Within size m) (inside : place < size)
    (same : ∀ q, q ≠ place → next.count q = m.count q) : Within size next := by
  intro q present
  by_cases here : q = place
  · exact here ▸ inside
  · exact within q (same q here ▸ present)

theorem places_member (m : Marking) (place : Nat) : place ∈ m.places ↔ m.count place ≠ 0 := by
  rw [ne_eq,← count_zero]
  constructor
  · intro member
    obtain ⟨a,inAtoms,rfl⟩ := List.mem_map.mp member
    have present := (canonical_member m.atoms m.canonical a).mp inAtoms
    rw [get,present.2]
    exact present.1
  · intro present
    exact List.mem_map.mpr ⟨_,lookup_nonzero m.atoms place present,rfl⟩

theorem below_canonical (m : Marking) (size : Nat) : Canonical (m.atoms.filter (·.place < size)) :=
  ⟨m.canonical.1.filter _,fun a member => m.canonical.2 a (List.mem_filter.mp member).1⟩

def below (m : Marking) (size : Nat) : Marking := ⟨m.atoms.filter (·.place < size),below_canonical m size⟩

theorem lookup_filter (keep : Nat → Bool) (place : Nat) (atoms : List Atom) :
    lookup place (atoms.filter fun a => keep a.place) = if keep place then lookup place atoms else 0 := by
  induction atoms with
  | nil => simp [lookup]
  | cons a rest ih =>
    by_cases kept : keep a.place = true
    · rw [List.filter_cons_of_pos (by simpa using kept),lookup,lookup]
      by_cases here : a.place = place
      · subst here; simp [kept]
      · simp only [here,if_false,ih]
    · rw [List.filter_cons_of_neg (by simpa using kept),lookup,ih]
      by_cases here : a.place = place
      · subst here; simp [kept]
      · simp [here]

theorem below_count (m : Marking) (size place : Nat) :
    (m.below size).count place = if place < size then m.count place else 0 := by
  unfold count get below
  rw [lookup_filter (· < size)]
  by_cases first : place < size <;> simp [first]

end Marking

end TimePetri
