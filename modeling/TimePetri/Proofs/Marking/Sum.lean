import TimePetri.Proofs.Marking.Counts

namespace TimePetri

def Fits (n : Int) : Prop := -wordLimit ≤ n ∧ n < wordLimit

instance (n : Int) : Decidable (Fits n) := inferInstanceAs (Decidable (_ ∧ _))

namespace Marking

variable {m : Marking}

theorem addAt_exact (m : Marking) (place : Nat) (change : Int64) :
    (∃ next, m.addAt place change = .ok next) ∧ Fits (m.count place + change.toInt) ∨
      m.addAt place change = .error (.overflow .add) ∧ ¬ Fits (m.count place + change.toInt) := by
  cases added : m.addAt place change with
  | ok next =>
    have range := next.count_range place
    rw [addAt_count added,if_pos rfl] at range
    exact .inl ⟨⟨next,rfl⟩,range⟩
  | error fault =>
    obtain ⟨rfl,exceeds⟩ := addAt_error m place change fault added
    refine .inr ⟨rfl,?_⟩
    rintro ⟨low,high⟩
    omega

-- The atoms of a canonical list stand at different places, so that each of them
-- meets the count that the sum started with.
theorem addAtoms_exact (atoms : List Atom) (valid : Canonical atoms) (m : Marking) :
    (∃ next, atoms.foldlM (fun sum a => sum.addAt a.place a.mult) m = .ok next ∧
        ∀ p, next.count p = m.count p + (lookup p atoms).toInt) ∨
      atoms.foldlM (fun sum a => sum.addAt a.place a.mult) m = .error (.overflow .add) ∧
        ∃ p, ¬ Fits (m.count p + (lookup p atoms).toInt) := by
  induction atoms generalizing m with
  | nil => exact .inl ⟨m,rfl,fun p => by simp [lookup]⟩
  | cons a rest ih =>
    obtain ⟨above,_,tail⟩ := (canonical_cons _ _).mp valid
    have clear : lookup a.place rest = 0 := lookup_below _ _ above
    have here : lookup a.place (a :: rest) = a.mult := by simp [lookup]
    rw [List.foldlM_cons]
    rcases addAt_exact m a.place a.mult with ⟨⟨middle,added⟩,_⟩ | ⟨failed,exceeds⟩
    · have counts : ∀ p, middle.count p + (lookup p rest).toInt = m.count p + (lookup p (a :: rest)).toInt := by
        intro p
        have step := addAt_count added p
        by_cases same : p = a.place
        · subst same
          rw [if_pos rfl] at step
          rw [step,clear,here,Int64.toInt_zero,Int.add_zero]
        · rw [if_neg same,Int.add_zero] at step
          rw [step,lookup,if_neg (Ne.symm same)]
      rw [added,ok_bind]
      simpa only [counts] using ih tail middle
    · rw [failed,error_bind]
      exact .inr ⟨rfl,a.place,by rwa [here]⟩

theorem add_exact (m other : Marking) :
    (∃ next, m.add other = .ok next ∧ ∀ p, next.count p = m.count p + other.count p) ∨
      m.add other = .error (.overflow .add) ∧ ∃ p, ¬ Fits (m.count p + other.count p) :=
  addAtoms_exact other.atoms other.canonical m

theorem negWord_exact (a : Int64) :
    (∃ w, negWord a = .ok w ∧ w.toInt = -a.toInt) ∨ negWord a = .error (.overflow .neg) ∧ a.toInt = -wordLimit := by
  cases negated : negWord a with
  | ok w => exact .inl ⟨w,rfl,(negWord_ok a w).mp negated⟩
  | error fault =>
    obtain ⟨rfl,exceeds⟩ := (checked_error .neg (-a.toInt) fault).mp negated
    have range := word_range a
    exact .inr ⟨rfl,by omega⟩

theorem negAtoms_exact (atoms : List Atom) (valid : Canonical atoms) (m : Marking) :
    (∃ next, atoms.foldlM (fun flipped a => return flipped.set a.place (← negWord a.mult)) m = .ok next ∧
        ∀ p, next.count p = if lookup p atoms = 0 then m.count p else -(lookup p atoms).toInt) ∨
      atoms.foldlM (fun flipped a => return flipped.set a.place (← negWord a.mult)) m = .error (.overflow .neg) ∧
        ∃ p, (lookup p atoms).toInt = -wordLimit := by
  induction atoms generalizing m with
  | nil => exact .inl ⟨m,rfl,fun p => by simp [lookup]⟩
  | cons a rest ih =>
    obtain ⟨above,nonzero,tail⟩ := (canonical_cons _ _).mp valid
    have clear : lookup a.place rest = 0 := lookup_below _ _ above
    have here : lookup a.place (a :: rest) = a.mult := by simp [lookup]
    have there : ∀ p, p ≠ a.place → lookup p (a :: rest) = lookup p rest := by
      intro p other
      rw [lookup,if_neg (Ne.symm other)]
    rw [List.foldlM_cons]
    rcases negWord_exact a.mult with ⟨w,negated,opposite⟩ | ⟨failed,least⟩
    · rw [negated,ok_bind,pure_ok,ok_bind]
      rcases ih tail (m.set a.place w) with ⟨next,flipped,counts⟩ | ⟨failed,p,least⟩
      · refine .inl ⟨next,flipped,fun p => ?_⟩
        rw [counts,count_set]
        by_cases same : p = a.place
        · subst same
          rw [here,if_pos clear,if_pos rfl,if_neg nonzero,opposite]
        · rw [there p same,if_neg same]
      · refine .inr ⟨failed,p,?_⟩
        by_cases same : p = a.place
        · subst same
          rw [clear] at least
          cases least
        · rwa [there p same]
    · rw [failed,error_bind]
      exact .inr ⟨rfl,a.place,by rwa [here]⟩

theorem neg_exact (m : Marking) :
    (∃ next, m.neg = .ok next ∧ ∀ p, next.count p = -m.count p) ∨
      m.neg = .error (.overflow .neg) ∧ ∃ p, m.count p = -wordLimit := by
  rcases negAtoms_exact m.atoms m.canonical empty with ⟨next,flipped,counts⟩ | failed
  · refine .inl ⟨next,flipped,fun p => ?_⟩
    rw [counts,count_empty]
    change (if m.get p = 0 then 0 else -m.count p) = -m.count p
    split
    · next absent => rw [(count_zero m p).mp absent]; rfl
    · rfl
  · exact .inr failed

theorem atom_count (m : Marking) (a : Atom) : a ∈ m.atoms ↔ a.mult ≠ 0 ∧ m.count a.place = a.mult.toInt := by
  rw [canonical_member _ m.canonical]
  exact and_congr_right fun _ => Int64.toInt_inj.symm

theorem atoms_all (m : Marking) (holds : Nat → Int → Prop) :
    (∀ a ∈ m.atoms, holds a.place a.mult.toInt) ↔ ∀ p, m.count p ≠ 0 → holds p (m.count p) := by
  constructor
  · intro all p present
    have nonzero : m.get p ≠ 0 := mt (count_zero m p).mp present
    exact all ⟨p,m.get p⟩ ((atom_count m _).mpr ⟨nonzero,rfl⟩)
  · intro all a member
    obtain ⟨nonzero,same⟩ := (atom_count m a).mp member
    have present : m.count a.place ≠ 0 := by rw [same]; exact mt (word_zero _).mpr nonzero
    rw [← same]
    exact all a.place present

theorem nonnegative_exact (m : Marking) : m.isNonnegative = true ↔ ∀ p, 0 ≤ m.count p := by
  have positive : m.isNonnegative = true ↔ ∀ a ∈ m.atoms, 0 < a.mult.toInt := by
    simp only [isNonnegative,List.all_eq_true,decide_eq_true_eq,Int64.lt_iff_toInt_lt,Int64.toInt_zero]
  rw [positive,atoms_all m fun _ n => 0 < n]
  refine forall_congr' fun p => ⟨fun present => ?_,fun nonneg present => by omega⟩
  by_cases absent : m.count p = 0
  · omega
  · exact Int.le_of_lt (present absent)

end Marking

end TimePetri
