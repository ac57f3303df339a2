import TimePetri.Proofs.Interval.Stored
import TimePetri.Script.Grammar

namespace TimePetri.Script

variable {w : Int64} {text : String} {token : Token}

theorem readNumber_exact (text : String) (w : Int64) :
    readNumber text = .ok w ↔ text ≠ "" ∧ ∃ n, naturalOf? (splitMultiplier text.toList).1 = some n ∧
      word? (n * (splitMultiplier text.toList).2 : Nat) = some w := by
  -- The conversion is kept under a name of its own, or else a proof step would carry it out.
  obtain ⟨fit,same⟩ : ∃ fit, fit = word? := ⟨_,rfl⟩
  unfold readNumber
  rw [← same]
  by_cases empty : text = ""
  · subst empty; simp
  · rw [if_neg (by simpa using empty)]
    simp only [empty,ne_eq,not_false_eq_true,true_and]
    cases naturalOf? (splitMultiplier text.toList).1 with
    | none => simp
    | some n =>
      simp only [Option.some.injEq,exists_eq_left']
      cases fit (n * (splitMultiplier text.toList).2 : Nat) <;> simp

theorem natural_nonneg (n : Nat) (fits : word? n = some w) : 0 ≤ w.toInt := by
  rw [(word?_exact _ _).mp fits]
  exact Int.natCast_nonneg n

theorem readNumber_nonneg (number : readNumber text = .ok w) : 0 ≤ w.toInt := by
  obtain ⟨_,n,_,fits⟩ := (readNumber_exact text w).mp number
  exact natural_nonneg _ fits

theorem readWeight_nonneg (weight : readWeight token = .ok w) :
    0 ≤ w.toInt := readNumber_nonneg (mapError_ok.mp weight)

def digits (w : Int64) : List Char := Nat.toDigits 10 w.toInt.toNat

theorem digits_only (w : Int64) : ∀ c ∈ digits w, c.isDigit = true :=
  fun _ member => Nat.isDigit_of_mem_toDigits (by decide) (by decide) member

theorem digits_some (w : Int64) : digits w ≠ [] := Nat.toDigits_ne_nil

theorem decimal_digits (nonneg : 0 ≤ w.toInt) : decimal w = String.ofList (digits w) := by
  unfold decimal digits
  obtain ⟨n,same⟩ := Int.eq_ofNat_of_zero_le nonneg
  rw [same]
  exact Nat.toString_eq_ofList_toDigits

theorem naturalOf_digits (w : Int64) : naturalOf? (digits w) = some w.toInt.toNat := by
  unfold naturalOf?
  rw [if_pos ⟨digits_some w,List.all_eq_true.mpr (digits_only w)⟩]
  refine congrArg some ?_
  unfold digitsValue digits
  rw [← Nat.ofDigitChars_eq_foldl]
  exact Nat.ofDigitChars_ten_toDigits

theorem digit_multiplier (c : Char) (isDigit : c.isDigit = true) : multiplier? c = none := by
  unfold multiplier?
  split <;> first | rfl | simp at isDigit

theorem splitMultiplier_digits (cs : List Char) (only : ∀ c ∈ cs, c.isDigit = true) : splitMultiplier cs = (cs,1) := by
  unfold splitMultiplier
  cases last : cs.getLast? with
  | none => rfl
  | some c => simp [digit_multiplier c (only c (List.mem_of_getLast? last))]

theorem word_natural (nonneg : 0 ≤ w.toInt) : word? (w.toInt.toNat : Nat) = some w :=
  (word?_exact _ _).mpr (Int.toNat_of_nonneg nonneg).symm

theorem readNumber_digits (nonneg : 0 ≤ w.toInt) : readNumber (String.ofList (digits w)) = .ok w := by
  refine (readNumber_exact _ _).mpr ⟨?_,w.toInt.toNat,?_,?_⟩
  · intro empty
    exact digits_some w (by simpa using congrArg String.toList empty)
  · rw [String.toList_ofList,splitMultiplier_digits _ (digits_only w)]
    exact naturalOf_digits w
  · rw [String.toList_ofList,splitMultiplier_digits _ (digits_only w),Nat.mul_one]
    exact word_natural nonneg

theorem valueField_digits (nonneg : 0 ≤ w.toInt) : valueField? (digits w) = some w := by
  unfold valueField?
  rw [naturalOf_digits,Option.bind_some]
  exact word_natural nonneg

theorem valueField_nonneg (field : List Char) (value : valueField? field = some w) : 0 ≤ w.toInt := by
  obtain ⟨n,_,fits⟩ := Option.bind_eq_some_iff.mp value
  exact natural_nonneg n fits

theorem leftBound_value (bracket : List Char) (v : Int64) : (leftBound bracket v).value? = some v := by
  unfold leftBound
  split <;> rfl

theorem rightBound_value (bracket : List Char) (v : Int64) : (rightBound bracket v).value? = some v := by
  unfold rightBound
  split <;> rfl

theorem bounds_nonneg (text : String) (left right : Bound) (bounds : bounds? text = some (left,right)) :
    (∀ v, left.value? = some v → 0 ≤ v.toInt) ∧ ∀ v, right.value? = some v → 0 ≤ v.toInt := by
  unfold bounds? at bounds
  split at bounds
  · next opening low high closing _ =>
    obtain ⟨l,lowValue,rest⟩ := Option.bind_eq_some_iff.mp bounds
    have lowest : ∀ v, (leftBound opening l).value? = some v → 0 ≤ v.toInt := by
      intro v same
      cases (leftBound_value _ _).symm.trans same
      exact valueField_nonneg _ lowValue
    split at rest
    · cases rest
      exact ⟨lowest,nofun⟩
    · obtain ⟨r,highValue,rest⟩ := Option.bind_eq_some_iff.mp rest
      cases rest
      refine ⟨lowest,fun v same => ?_⟩
      cases (rightBound_value _ _).symm.trans same
      exact valueField_nonneg _ highValue
  · cases bounds

theorem readInterval_declared (token : Token) (transition : String) (interval : Interval)
    (read : readInterval token transition = .ok interval) : interval.Declared := by
  unfold readInterval at read
  split at read
  · cases read
  · next left right bounds =>
    obtain ⟨low,high⟩ := bounds_nonneg _ _ _ bounds
    exact Interval.make_declared left right low high (mapError_ok.mp read)

end TimePetri.Script
