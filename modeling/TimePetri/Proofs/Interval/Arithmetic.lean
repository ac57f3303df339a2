import TimePetri.Proofs.Interval.Times
import TimePetri.Proofs.Marking.Sum

namespace TimePetri

theorem checked_refused (operation : Operation) (n : Int) (fault : Fault) :
    checked operation n = .error fault ↔ fault = .overflow operation ∧ ¬ Fits n := by
  rw [checked_error,Fits,not_and_or,Int.not_le,Int.not_lt]

namespace Bound

variable {operation : Int64 → Int64 → Except Fault Int64} {a b c : Bound} {v w : Int64} {fault : Fault} {z : ℚ}

def ofValue (opens : Bool) (v : Int64) : Bound := if opens then opened v else closed v

theorem ofValue_value (opens : Bool) (v : Int64) : (ofValue opens v).value? = some v := by cases opens <;> rfl

theorem ofValue_isOpen (opens : Bool) (v : Int64) : (ofValue opens v).isOpen = opens := by cases opens <;> rfl

theorem value_cases (b : Bound) : b = infinite ∨ ∃ v, b.value? = some v := by
  cases b with
  | infinite => exact .inl rfl
  | closed v | opened v => exact .inr ⟨v,rfl⟩

theorem combine_endless (endless : a = infinite ∨ b = infinite) : combine operation a b = .ok infinite := by
  rcases endless with rfl | rfl
  · rfl
  · cases a <;> rfl

theorem combine_values (value : a.value? = some v) (other : b.value? = some w) :
    combine operation a b = ofValue (a.isOpen || b.isOpen) <$> operation v w := by
  cases a with
  | infinite => cases value
  | closed | opened =>
    cases value
    cases b with
    | infinite => cases other
    | closed | opened => cases other; rfl

theorem combine_swapped (swapped : ∀ v w, operation v w = operation w v) (a b : Bound) :
    combine operation a b = combine operation b a := by
  rcases value_cases a with endless | ⟨v,value⟩
  · rw [combine_endless (.inl endless),combine_endless (.inr endless)]
  · rcases value_cases b with endless | ⟨w,other⟩
    · rw [combine_endless (.inr endless),combine_endless (.inl endless)]
    · rw [combine_values value other,combine_values other value,swapped,Bool.or_comm]

theorem combine_refused : combine operation a b = .error fault ↔
    ∃ v w, a.value? = some v ∧ b.value? = some w ∧ operation v w = .error fault := by
  constructor
  · intro refused
    rcases value_cases a with endless | ⟨v,value⟩
    · rw [combine_endless (.inl endless)] at refused
      cases refused
    · rcases value_cases b with endless | ⟨w,other⟩
      · rw [combine_endless (.inr endless)] at refused
        cases refused
      · rw [combine_values value other,map_error] at refused
        exact ⟨v,w,value,other,refused⟩
  · rintro ⟨v,w,value,other,failed⟩
    rw [combine_values value other,failed]
    rfl

theorem ends_reached (b : Bound) : ∃ x, b.Ends x := by
  cases b with
  | infinite => exact ⟨0,True.intro⟩
  | closed v => exact ⟨time v,le_refl _⟩
  | opened v => exact ⟨time v - 1,sub_one_lt _⟩

theorem starts_reached (b : Bound) : ∃ x, b.Starts x := by
  cases b with
  | infinite => exact ⟨0,True.intro⟩
  | closed v => exact ⟨time v,le_refl _⟩
  | opened v => exact ⟨time v + 1,lt_add_one _⟩

theorem sum_below (s t : ℚ) (p q : Bool) (z : ℚ) :
    (z < s + t ∨ z = s + t ∧ (p || q) = false) ↔
      ∃ x y, (x < s ∨ x = s ∧ p = false) ∧ (y < t ∨ y = t ∧ q = false) ∧ x + y = z := by
  rw [Bool.or_eq_false_iff]
  constructor
  · rintro (below | ⟨rfl,left,right⟩)
    · exact ⟨s - (s + t - z) / 2,t - (s + t - z) / 2,.inl (by linarith),.inl (by linarith),by linarith⟩
    · exact ⟨s,t,.inr ⟨rfl,left⟩,.inr ⟨rfl,right⟩,rfl⟩
  · rintro ⟨x,y,below | ⟨rfl,left⟩,under | ⟨rfl,right⟩,rfl⟩
    · exact .inl (add_lt_add below under)
    · exact .inl (by linarith)
    · exact .inl (by linarith)
    · exact .inr ⟨rfl,left,right⟩

-- The other operand is known by the numbers that are added for it, which lie below a limit
-- that its value sets.
theorem combine_ends {added : ℚ → Prop} (limit : Int64 → ℚ) (combined : combine operation a b = .ok c)
    (sums : ∀ v w u, operation v w = .ok u → time u = time v + limit w) (reached : ∃ y, added y)
    (all : b = infinite → ∀ y, added y)
    (below : ∀ w, b.value? = some w → ∀ y, added y ↔ y < limit w ∨ y = limit w ∧ b.isOpen = false) (z : ℚ) :
    c.Ends z ↔ ∃ x y, a.Ends x ∧ added y ∧ x + y = z := by
  rcases value_cases a with rfl | ⟨v,value⟩
  · cases (combine_endless (.inl rfl)).symm.trans combined
    obtain ⟨y,here⟩ := reached
    exact iff_of_true True.intro ⟨z - y,y,True.intro,here,sub_add_cancel z y⟩
  · rcases value_cases b with rfl | ⟨w,other⟩
    · cases (combine_endless (.inr rfl)).symm.trans combined
      obtain ⟨x,here⟩ := ends_reached a
      exact iff_of_true True.intro ⟨x,z - x,here,all rfl _,add_sub_cancel x z⟩
    · rw [combine_values value other] at combined
      obtain ⟨u,done,rfl⟩ := map_ok.mp combined
      rw [ends_value (ofValue_value _ u),ofValue_isOpen,sums _ _ _ done,sum_below]
      simp only [ends_value value,below _ other]

theorem add_ends (added : a.add b = .ok c) (z : ℚ) : c.Ends z ↔ ∃ x y, a.Ends x ∧ b.Ends y ∧ x + y = z := by
  refine combine_ends time added (fun v w u done => ?_) (ends_reached b) (fun endless y => endless ▸ True.intro)
    (fun w value y => ends_value value) z
  unfold time
  rw [(checked_ok _ _ _).mp done,Int.cast_add]

theorem sub_ends (subtracted : a.sub b = .ok c) (z : ℚ) : c.Ends z ↔ ∃ x y, a.Ends x ∧ b.Starts y ∧ x - y = z := by
  have turned : c.Ends z ↔ ∃ x y, a.Ends x ∧ b.Starts (-y) ∧ x + y = z := by
    obtain ⟨y,here⟩ := starts_reached b
    refine combine_ends (fun w => -time w) subtracted (fun v w u done => ?_) ⟨-y,(neg_neg y).symm ▸ here⟩
      (fun endless y => endless ▸ True.intro) (fun w value y => ?_) z
    · unfold time
      rw [(checked_ok _ _ _).mp done,Int.cast_sub,sub_eq_add_neg]
    · rw [starts_value value,lt_neg,eq_comm,neg_eq_iff_eq_neg]
  rw [turned]
  refine exists_congr fun x => (Equiv.neg ℚ).exists_congr fun y => ?_
  rw [Equiv.neg_apply,sub_neg_eq_add]

-- What holds of sums and differences of bounds. An overflow is an outcome like any other.
structure Arithmetic (a b c : Bound) : Prop where
  sum : ∀ result, a.add b = .ok result → ∀ z, result.Ends z ↔ ∃ x y, a.Ends x ∧ b.Ends y ∧ x + y = z
  difference : ∀ result, a.sub b = .ok result → ∀ z, result.Ends z ↔ ∃ x y, a.Ends x ∧ b.Starts y ∧ x - y = z
  sumRefused : ∀ fault, a.add b = .error fault ↔ fault = .overflow .add ∧
    ∃ v w, a.value? = some v ∧ b.value? = some w ∧ ¬ Fits (v.toInt + w.toInt)
  differenceRefused : ∀ fault, a.sub b = .error fault ↔ fault = .overflow .sub ∧
    ∃ v w, a.value? = some v ∧ b.value? = some w ∧ ¬ Fits (v.toInt - w.toInt)
  commutes : a.add b = b.add a
  associates : ∀ one two, (do (← a.add b).add c) = .ok one → (do a.add (← b.add c)) = .ok two → one = two

theorem add_regrouped {left right one two : Bound} (added : a.add b = .ok left) (grouped : left.add c = .ok one)
    (further : b.add c = .ok right) (regrouped : a.add right = .ok two) : one = two := by
  refine ends_unique fun z => ?_
  rw [add_ends grouped,add_ends regrouped]
  simp only [add_ends added,add_ends further]
  constructor
  · rintro ⟨_,y,⟨u,x,first,second,rfl⟩,third,rfl⟩
    exact ⟨u,x + y,first,⟨x,y,second,third,rfl⟩,(add_assoc u x y).symm⟩
  · rintro ⟨u,_,first,⟨x,y,second,third,rfl⟩,rfl⟩
    exact ⟨u + x,y,⟨u,x,first,second,rfl⟩,third,add_assoc u x y⟩

theorem arithmetic_exact (a b c : Bound) : Arithmetic a b c := by
  constructor
  case sum => exact fun result => add_ends
  case difference => exact fun result => sub_ends
  case sumRefused =>
    intro fault
    rw [add,combine_refused]
    simp only [addWords,checked_refused]
    tauto
  case differenceRefused =>
    intro fault
    rw [sub,combine_refused]
    simp only [subWords,checked_refused]
    tauto
  case commutes =>
    refine combine_swapped (fun v w => ?_) a b
    rw [addWords,Int.add_comm,addWords]
  case associates =>
    intro one two first second
    obtain ⟨left,added,grouped⟩ := bind_ok.mp first
    obtain ⟨right,further,regrouped⟩ := bind_ok.mp second
    exact add_regrouped added grouped further regrouped

-- A difference of bounds of either kind, and a sum that fails although one of the bounds is
-- open, which would not with an infinite one.
theorem arithmetic_exact_mixed :
    (opened 2).sub (closed 3) = .ok (opened (-1)) ∧
      (∀ z, (opened (-1)).Ends z ↔ ∃ x y, (opened 2).Ends x ∧ (closed 3).Starts y ∧ x - y = z) ∧
      (opened 9223372036854775807).add (closed 1) = .error (.overflow .add) ∧
      (opened 9223372036854775807).add infinite = infinite.add (opened 9223372036854775807) := by
  have subtracted : (opened 2).sub (closed 3) = .ok (opened (-1)) := by decide
  have exceeds : ¬ Fits ((9223372036854775807 : Int64).toInt + (1 : Int64).toInt) := by decide
  exact ⟨subtracted,(arithmetic_exact _ _ infinite).difference _ subtracted,
    ((arithmetic_exact _ _ infinite).sumRefused _).mpr ⟨rfl,_,_,rfl,rfl,exceeds⟩,(arithmetic_exact _ _ infinite).commutes⟩

end Bound

end TimePetri
