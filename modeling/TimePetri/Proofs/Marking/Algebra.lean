import TimePetri.Proofs.Marking.Built

namespace TimePetri

open AtomTable (Denotes)

variable {m other third next : Marking} {operation : Operation} {outcome again : Except Fault Marking} {fault : Fault}
  {f : Nat → Int} {place : Nat} {change : Int64}

namespace Marking

-- The one marking with these counts, or the overflow of an operation if one of them does not fit.
def Yields (operation : Operation) (f : Nat → Int) (outcome : Except Fault Marking) : Prop :=
  (∃ next, outcome = .ok next ∧ ∀ p, next.count p = f p) ∨ outcome = .error (.overflow operation) ∧ ∃ p, ¬ Fits (f p)

theorem counts_fit (counts : ∀ p, next.count p = f p) (p : Nat) : Fits (f p) := counts p ▸ next.count_range p

theorem yields_ok (yields : Yields operation f outcome) : outcome = .ok next ↔ ∀ p, next.count p = f p := by
  rcases yields with ⟨exact,rfl,counts⟩ | ⟨rfl,p,exceeds⟩
  · rw [Except.ok.injEq]
    exact ⟨fun same => same ▸ counts,fun others => ext_count _ _ fun p => (counts p).trans (others p).symm⟩
  · exact ⟨nofun,fun counts => absurd (counts_fit counts p) exceeds⟩

theorem yields_error (yields : Yields operation f outcome) :
    outcome = .error fault ↔ fault = .overflow operation ∧ ∃ p, ¬ Fits (f p) := by
  rcases yields with ⟨exact,rfl,counts⟩ | ⟨rfl,exceeds⟩
  · exact ⟨nofun,fun ⟨_,p,exceeds⟩ => absurd (counts_fit counts p) exceeds⟩
  · rw [Except.error.injEq]
    exact ⟨fun same => ⟨same.symm,exceeds⟩,fun same => same.1.symm⟩

theorem yields_same (one : Yields operation f outcome) (two : Yields operation f again) : outcome = again := by
  rcases two with ⟨next,rfl,counts⟩ | ⟨rfl,exceeds⟩
  · exact (yields_ok one).mpr counts
  · exact (yields_error one).mpr ⟨rfl,exceeds⟩

theorem add_yields (m other : Marking) : Yields .add (fun p => m.count p + other.count p) (m.add other) := add_exact m other

theorem fits_opposite (m : Marking) (p : Nat) : Fits (-m.count p) ↔ m.count p ≠ -wordLimit := by
  have range := m.count_range p
  unfold Fits
  omega

theorem neg_yields (m : Marking) : Yields .neg (fun p => -m.count p) m.neg := by
  rcases neg_exact m with exact | ⟨failed,p,least⟩
  · exact .inl exact
  · exact .inr ⟨failed,p,fun fits => (fits_opposite m p).mp fits least⟩

theorem addAt_yields (m : Marking) (place : Nat) (change : Int64) :
    Yields .add (fun q => m.count q + if q = place then change.toInt else 0) (m.addAt place change) := by
  rcases addAt_exact m place change with ⟨⟨next,added⟩,_⟩ | ⟨failed,exceeds⟩
  · exact .inl ⟨next,added,addAt_count added⟩
  · refine .inr ⟨failed,place,?_⟩
    change ¬ Fits (m.count place + if place = place then change.toInt else 0)
    rwa [if_pos rfl]

theorem add_swapped (m other : Marking) : m.add other = other.add m := by
  have turned := add_yields other m
  simp only [Int.add_comm] at turned
  exact yields_same (add_yields m other) turned

theorem add_regrouped {left right one two : Marking} (added : m.add other = .ok left) (grouped : left.add third = .ok one)
    (further : other.add third = .ok right) (regrouped : m.add right = .ok two) : one = two := by
  rw [yields_ok (add_yields _ _)] at added grouped further regrouped
  refine ext_count _ _ fun p => ?_
  rw [grouped,added,regrouped,further,Int.add_assoc]

theorem add_empty (m : Marking) : m.add empty = .ok m :=
  (yields_ok (add_yields _ _)).mpr fun p => by rw [count_empty,Int.add_zero]

theorem neg_negated (negated : m.neg = .ok next) : next.neg = .ok m := by
  rw [yields_ok (neg_yields _)] at negated ⊢
  intro p
  rw [negated,Int.neg_neg]

theorem neg_ok (opposed : ∀ p, m.count p ≠ -wordLimit) : ∃ next, m.neg = .ok next := by
  rcases neg_exact m with ⟨next,negated,_⟩ | ⟨_,p,least⟩
  · exact ⟨next,negated⟩
  · exact absurd least (opposed p)

theorem sub_same (opposed : ∀ p, m.count p ≠ -wordLimit) : m.sub m = .ok empty := by
  obtain ⟨next,negated⟩ := neg_ok opposed
  rw [sub,negated,ok_bind,yields_ok (add_yields _ _)]
  intro p
  rw [(yields_ok (neg_yields _)).mp negated,count_empty,Int.add_right_neg]

theorem sub_refused (m other : Marking) : m.sub other = .error fault ↔
    fault = .overflow .neg ∧ (∃ p, other.count p = -wordLimit) ∨
      fault = .overflow .add ∧ (∀ p, other.count p ≠ -wordLimit) ∧ ∃ p, ¬ Fits (m.count p - other.count p) := by
  by_cases opposed : ∀ p, other.count p ≠ -wordLimit
  · obtain ⟨opposite,negated⟩ := neg_ok opposed
    have counts := (yields_ok (neg_yields _)).mp negated
    rw [sub,negated,ok_bind,yields_error (add_yields _ _)]
    simp only [counts,Int.sub_eq_add_neg]
    exact ⟨fun failed => .inr ⟨failed.1,opposed,failed.2⟩,fun failed => failed.elim
      (fun least => absurd least.2.choose_spec (opposed _)) fun exceeds => ⟨exceeds.1,exceeds.2.2⟩⟩
  · obtain ⟨p,least⟩ := Classical.not_forall_not.mp opposed
    have failed : other.neg = .error (.overflow .neg) :=
      (yields_error (neg_yields _)).mpr ⟨rfl,p,fun fits => (fits_opposite other p).mp fits least⟩
    rw [sub,failed,error_bind,Except.error.injEq]
    exact ⟨fun same => .inl ⟨same.symm,p,least⟩,fun failed => failed.elim (fun same => same.1.symm)
      fun none => absurd none.2.1 opposed⟩

theorem sub_restored (subtracted : m.sub other = .ok next) : next.add other = .ok m := by
  obtain ⟨opposite,negated,added⟩ := bind_ok.mp subtracted
  rw [yields_ok (neg_yields _)] at negated
  rw [yields_ok (add_yields _ _)] at added ⊢
  intro p
  rw [added,negated,Int.neg_add_cancel_right]

theorem addAt_undone {opposite : Int64} (negated : negWord change = .ok opposite) (added : m.addAt place change = .ok next) :
    next.addAt place opposite = .ok m := by
  rw [negWord_ok] at negated
  rw [yields_ok (addAt_yields _ _ _)] at added ⊢
  intro p
  rw [added,negated]
  split <;> omega

end Marking

namespace AtomTable

def count (table : AtomTable) (place : Nat) : Int := (lookup place table.toList).toInt

-- What holds of sums, differences and opposites of tables, and of a change at one place.
-- An overflow is an outcome like any other.
structure Algebra (a b c : AtomTable) : Prop where
  counts : Denotes a a.count
  sum : ∀ fault, a.add b = .error fault ↔ fault = .overflow .add ∧ ∃ p, ¬ Fits (a.count p + b.count p)
  commutes : a.add b = b.add a
  associates : ∀ x y, (do (← a.add b).add c) = .ok x → (do a.add (← b.add c)) = .ok y → x = y
  neutral : a.add #[] = .ok a ∧ AtomTable.add #[] a = .ok a
  opposite : ∀ fault, a.neg = .error fault ↔ fault = .overflow .neg ∧ ∃ p, a.count p = -wordLimit
  opposed : (∀ p, a.count p ≠ -wordLimit) → (∃ x, a.neg = .ok x ∧ x.neg = .ok a) ∧ a.sub a = .ok #[]
  difference : ∀ fault, a.sub b = .error fault ↔ fault = .overflow .neg ∧ (∃ p, b.count p = -wordLimit) ∨
    fault = .overflow .add ∧ (∀ p, b.count p ≠ -wordLimit) ∧ ∃ p, ¬ Fits (a.count p - b.count p)
  restores : ∀ x, a.sub b = .ok x → x.add b = .ok a
  undoes : ∀ p d x, d.toInt ≠ -wordLimit → a.addAt p d = .ok x → ∃ w, negWord d = .ok w ∧ x.addAt p w = .ok a

theorem canonical_marking {table : AtomTable} (canonical : Canonical table.toList) : ∃ m : Marking, m.table = table :=
  ⟨⟨table.toList,canonical⟩,rfl⟩

theorem canonical_algebra (a b c : AtomTable) (first : Canonical a.toList) (second : Canonical b.toList)
    (third : Canonical c.toList) : Algebra a b c := by
  obtain ⟨a,rfl⟩ := canonical_marking first
  obtain ⟨b,rfl⟩ := canonical_marking second
  obtain ⟨c,rfl⟩ := canonical_marking third
  constructor
  case counts => exact a.denotes_count
  case sum =>
    intro fault
    rw [Marking.addTable_exact,map_error,Marking.yields_error (Marking.add_yields a b)]
    rfl
  case commutes => rw [Marking.addTable_exact,Marking.addTable_exact,Marking.add_swapped]
  case associates =>
    intro x y one two
    obtain ⟨left,first,one⟩ := bind_ok.mp one
    obtain ⟨right,second,two⟩ := bind_ok.mp two
    rw [Marking.addTable_exact] at first second
    obtain ⟨leftSum,added,rfl⟩ := map_ok.mp first
    obtain ⟨rightSum,further,rfl⟩ := map_ok.mp second
    rw [Marking.addTable_exact] at one two
    obtain ⟨inner,grouped,rfl⟩ := map_ok.mp one
    obtain ⟨outer,regrouped,rfl⟩ := map_ok.mp two
    rw [Marking.add_regrouped added grouped further regrouped]
  case neutral =>
    have empty : (#[] : AtomTable) = Marking.empty.table := rfl
    rw [empty,Marking.addTable_exact,Marking.addTable_exact,Marking.add_swapped .empty,Marking.add_empty]
    exact ⟨rfl,rfl⟩
  case opposite =>
    intro fault
    rw [Marking.negTable_exact,map_error,Marking.yields_error (Marking.neg_yields a)]
    simp only [Marking.fits_opposite,not_not]
    rfl
  case opposed =>
    intro opposed
    obtain ⟨next,negated⟩ := Marking.neg_ok opposed
    rw [Marking.negTable_exact,Marking.subTable_exact,negated,Marking.sub_same opposed]
    refine ⟨⟨next.table,rfl,?_⟩,rfl⟩
    rw [Marking.negTable_exact,Marking.neg_negated negated]
    rfl
  case difference =>
    intro fault
    rw [Marking.subTable_exact,map_error,Marking.sub_refused]
    rfl
  case restores =>
    intro x subtracted
    rw [Marking.subTable_exact] at subtracted
    obtain ⟨next,taken,rfl⟩ := map_ok.mp subtracted
    rw [Marking.addTable_exact,Marking.sub_restored taken]
    rfl
  case undoes =>
    intro p d x opposed added
    rw [Marking.addAtTable_exact] at added
    obtain ⟨next,changed,rfl⟩ := map_ok.mp added
    obtain ⟨w,negated⟩ : ∃ w, negWord d = .ok w := by
      rcases Marking.negWord_exact d with ⟨w,negated,_⟩ | ⟨_,least⟩
      · exact ⟨w,negated⟩
      · exact absurd least opposed
    refine ⟨w,negated,?_⟩
    rw [Marking.addAtTable_exact,Marking.addAt_undone negated changed]
    rfl

-- A sum that does not fit, atoms that cancel, and a multiplicity that has no opposite.
theorem canonical_algebra_extremes :
    Canonical [⟨0,9223372036854775807⟩,⟨2,3⟩] ∧ Canonical [⟨0,1⟩,⟨2,-3⟩] ∧ Canonical [⟨0,-1⟩,⟨5,-9223372036854775808⟩] ∧
      Algebra #[⟨0,9223372036854775807⟩,⟨2,3⟩] #[⟨0,1⟩,⟨2,-3⟩] #[⟨0,-1⟩,⟨5,-9223372036854775808⟩] ∧
      AtomTable.add #[⟨0,9223372036854775807⟩,⟨2,3⟩] #[⟨0,1⟩,⟨2,-3⟩] = .error (.overflow .add) ∧
      AtomTable.neg #[⟨0,-1⟩,⟨5,-9223372036854775808⟩] = .error (.overflow .neg) := by
  have first : Canonical [⟨0,9223372036854775807⟩,⟨2,3⟩] := ⟨by decide,by decide⟩
  have second : Canonical [⟨0,1⟩,⟨2,-3⟩] := ⟨by decide,by decide⟩
  have third : Canonical [⟨0,-1⟩,⟨5,-9223372036854775808⟩] := ⟨by decide,by decide⟩
  have laws := canonical_algebra #[⟨0,9223372036854775807⟩,⟨2,3⟩] #[⟨0,1⟩,⟨2,-3⟩] #[⟨0,-1⟩,⟨5,-9223372036854775808⟩]
    first second third
  have opposites := canonical_algebra #[⟨0,-1⟩,⟨5,-9223372036854775808⟩] #[] #[] third canonical_nil canonical_nil
  exact ⟨first,second,third,laws,(laws.sum _).mpr ⟨rfl,0,by decide⟩,(opposites.opposite _).mpr ⟨rfl,5,by decide⟩⟩

end AtomTable

end TimePetri
