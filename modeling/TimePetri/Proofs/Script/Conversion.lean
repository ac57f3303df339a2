import Mathlib.Data.Nat.Digits.Defs
import TimePetri.Proofs.Script.Numerals
import TimePetri.Script.Conversion

namespace TimePetri.Script

def letterPowers : List (Char × Nat) := [('K',3),('M',6),('G',9),('T',12),('P',15),('E',18)]

def Numeral.power (n : Numeral) : Nat := (n.suffix.bind (letterPowers.lookup ·)).getD 0

def Numeral.value (n : Numeral) : Nat :=
  Nat.ofDigits 10 (n.digits.reverse.map fun c => c.toNat - '0'.toNat) * 10 ^ n.power

variable {c : Char} {cs digits : List Char} {w : Int64} {value : Nat}

theorem multiplier_power (c : Char) : multiplier? c = (letterPowers.lookup c).map (10 ^ ·) := by
  unfold multiplier?
  split
  case h_7 k m g t p e =>
    have none : letterPowers.lookup c = none := by
      simp only [letterPowers,List.lookup_cons,beq_false_of_ne k,beq_false_of_ne m,beq_false_of_ne g,beq_false_of_ne t,
        beq_false_of_ne p,beq_false_of_ne e,List.lookup_nil]
    rw [none]
    rfl
  all_goals rfl

theorem multiplier_letters (c : Char) : isMultiplier c = true ↔ c ∈ letterPowers.map Prod.fst := by
  constructor
  · intro multiplier
    rcases multiplier_cases c multiplier with rfl | rfl | rfl | rfl | rfl | rfl <;> decide
  · intro member
    simp only [letterPowers,List.map_cons,List.map_nil,List.mem_cons,List.not_mem_nil,or_false] at member
    rcases member with rfl | rfl | rfl | rfl | rfl | rfl <;> rfl

theorem digitsValue_places (digits : List Char) :
    digitsValue digits = Nat.ofDigits 10 (digits.reverse.map fun c => c.toNat - '0'.toNat) := by
  rw [Nat.ofDigits_eq_foldr,List.foldr_map,List.foldr_reverse]
  unfold digitsValue
  congr 1
  funext n c
  simp
  omega

-- The table is searched by what the number ends in, and each letter stands in it once.
theorem factored_split (cs : List Char) : (factored cs).1 = (splitMultiplier cs).1 ∧
    (factored cs).2.toInt = (splitMultiplier cs).2 := by
  unfold factored splitMultiplier strip?
  cases last : cs.getLast? with
  | none => simp [multipliers]
  | some c =>
    by_cases letter : isMultiplier c = true
    · rcases multiplier_cases c letter with rfl | rfl | rfl | rfl | rfl | rfl <;> exact ⟨rfl,rfl⟩
    · have other := mt (multiplier_letters c).mpr letter
      simp only [isMultiplier,Bool.not_eq_true,Option.isSome_eq_false_iff,Option.isNone_iff_eq_none] at letter
      simp only [letterPowers,List.map_cons,List.map_nil,List.mem_cons,List.not_mem_nil,or_false,not_or] at other
      simp [multipliers,letter,other]

theorem split_written (n : Numeral) : splitMultiplier n.written = (n.digits,10 ^ n.power) := by
  obtain ⟨digits,suffix,some,only,letter⟩ := n
  cases suffix with
  | none =>
    have split := splitMultiplier_digits digits only
    simpa [Numeral.written,Numeral.power] using split
  | some c =>
    have multiplier := letter c rfl
    obtain ⟨factor,found⟩ := Option.isSome_iff_exists.mp multiplier
    have power := multiplier_power c
    obtain ⟨exponent,same,rfl⟩ := Option.map_eq_some_iff.mp (power.symm.trans found)
    simp [Numeral.written,Numeral.power,splitMultiplier,found,same]

theorem split_parts (cs : List Char) : ∃ suffix : Option Char,
    (splitMultiplier cs).1 ++ suffix.toList = cs ∧ ∀ c ∈ suffix, isMultiplier c = true := by
  unfold splitMultiplier
  cases last : cs.getLast? with
  | none => exact ⟨none,by simp,by simp⟩
  | some c =>
    obtain ⟨front,rfl⟩ := List.getLast?_eq_some_iff.mp last
    rw [Option.bind_some]
    cases found : multiplier? c with
    | none => exact ⟨none,by simp,by simp⟩
    | some factor =>
      refine ⟨some c,by simp,fun d same => ?_⟩
      cases same
      exact Option.isSome_iff_exists.mpr ⟨factor,found⟩

theorem naturalOf_exact (digits : List Char) (value : Nat) : naturalOf? digits = some value ↔
    digits ≠ [] ∧ (∀ c ∈ digits, c.isDigit = true) ∧ digitsValue digits = value := by
  unfold naturalOf?
  rw [← List.all_eq_true]
  split
  · next both => simp [both]
  · next neither =>
    simp only [reduceCtorEq,false_iff]
    exact fun all => neither ⟨all.1,all.2.1⟩

theorem natural_numeral (cs : List Char) (value : Nat) :
    (∃ number, naturalOf? (splitMultiplier cs).1 = some number ∧ number * (splitMultiplier cs).2 = value) ↔
      ∃ n : Numeral, n.written = cs ∧ n.value = value := by
  constructor
  · intro read
    obtain ⟨number,natural,product⟩ := read
    obtain ⟨some,only,same⟩ := (naturalOf_exact _ _).mp natural
    obtain ⟨suffix,whole,letter⟩ := split_parts cs
    let n : Numeral := ⟨(splitMultiplier cs).1,suffix,some,only,letter⟩
    have written : n.written = cs := whole
    refine ⟨n,written,?_⟩
    rw [← product,← written,split_written,← same,digitsValue_places]
    rfl
  · intro read
    obtain ⟨n,rfl,rfl⟩ := read
    rw [split_written]
    exact ⟨_,(naturalOf_exact _ _).mpr ⟨n.some,n.only,rfl⟩,by rw [digitsValue_places]; rfl⟩

theorem digit_below (digit : c.isDigit = true) : c.toNat - '0'.toNat < 10 := by
  have highest : c.toNat ≤ '9'.toNat := of_decide_eq_true (Bool.and_eq_true_iff.mp digit).2
  have nine : '9'.toNat = '0'.toNat + 9 := rfl
  omega

theorem digitWord_value (digit : c.isDigit = true) : (digitWord c).toInt = (c.toNat - '0'.toNat : Nat) := by
  have below := digit_below digit
  exact Int64.toInt_ofNat_of_lt (by omega)

-- A number that does not fit can only grow.
theorem word_grows {small large : Nat} (exceeds : word? small = none) (more : small ≤ large) : word? large = none := by
  have outside := (word?_none _).mp exceeds
  exact (word?_none _).mpr (by omega)

theorem digits_grow (digits : List Char) (start : Nat) :
    start ≤ digits.foldl (fun n c => 10 * n + (c.toNat - '0'.toNat)) start := by
  induction digits generalizing start with
  | nil => exact Nat.le_refl _
  | cons c rest ih =>
    rw [List.foldl_cons]
    have further := ih (10 * start + (c.toNat - '0'.toNat))
    omega

theorem append_exact (same : w.toInt = value) (digit : c.isDigit = true) :
    append? w c = word? (10 * value + (c.toNat - '0'.toNat) : Nat) := by
  have shifted : w.toInt * (10 : Int64).toInt = (10 * value : Nat) := by
    rw [same,Int.natCast_mul,Int.mul_comm]
    rfl
  unfold append? times? plus?
  rw [shifted,digitWord_value digit]
  cases fits : word? (10 * value : Nat) with
  | none => exact (word_grows fits (Nat.le_add_right _ _)).symm
  | some tens =>
    have whole := (word?_exact _ _).mp fits
    rw [Option.bind_eq_bind,Option.bind_some,whole,Int.natCast_add]

theorem appended_exact (same : w.toInt = value) (only : ∀ c ∈ digits, c.isDigit = true) :
    digits.foldlM append? w = word? (digits.foldl (fun n c => 10 * n + (c.toNat - '0'.toNat)) value : Nat) := by
  induction digits generalizing w value with
  | nil => exact ((word?_exact _ _).mpr same).symm
  | cons c rest ih =>
    rw [List.foldlM_cons,append_exact same (only c (by simp)),List.foldl_cons]
    cases fits : word? (10 * value + (c.toNat - '0'.toNat) : Nat) with
    | none => exact (word_grows fits (digits_grow rest _)).symm
    | some next => exact ih ((word?_exact _ _).mp fits) fun d member => only d (List.mem_cons_of_mem _ member)

theorem summed_exact (only : ∀ c ∈ digits, c.isDigit = true) :
    digits.foldlM append? 0 = word? (digitsValue digits) := appended_exact rfl only

theorem split_positive (cs : List Char) : 0 < (splitMultiplier cs).2 := by
  unfold splitMultiplier
  split
  · next factor found =>
    obtain ⟨c,_,multiplier⟩ := Option.bind_eq_some_iff.mp found
    rw [multiplier_power] at multiplier
    obtain ⟨exponent,_,rfl⟩ := Option.map_eq_some_iff.mp multiplier
    exact Nat.pow_pos (by decide)
  · exact Nat.one_pos

theorem times_exact (number : Nat) {factor : Int64} {power : Nat} (same : factor.toInt = power) (positive : 0 < power) :
    ((word? number).bind fun w => times? w factor) = word? (number * power : Nat) := by
  unfold times?
  cases fits : word? number with
  | none => exact (word_grows fits (Nat.le_mul_of_pos_right number positive)).symm
  | some w =>
    have value := (word?_exact _ _).mp fits
    rw [Option.bind_some,value,same,Int.natCast_mul]

theorem readNumber_filled (text : String) (filled : text ≠ "") :
    readNumber text = (naturalOf? (splitMultiplier text.toList).1).elim (.error (.invalid text)) fun number =>
      (word? (number * (splitMultiplier text.toList).2 : Nat)).elim (.error (.overflow text)) .ok := by
  -- As in `readNumber_exact` the conversion gets a name of its own.
  obtain ⟨fit,same⟩ : ∃ fit, fit = word? := ⟨_,rfl⟩
  unfold readNumber
  rw [← same,if_neg (by simpa using filled)]
  dsimp only
  cases naturalOf? (splitMultiplier text.toList).1 with
  | none => rfl
  | some number =>
    dsimp only [Option.elim_some]
    cases fit (number * (splitMultiplier text.toList).2 : Nat) <;> rfl

theorem naturalOf_checked (digits : List Char) :
    naturalOf? digits = if digits.isEmpty || !digits.all Char.isDigit then none else some (digitsValue digits) := by
  unfold naturalOf?
  cases digits with
  | nil => rfl
  | cons c rest => cases all : (c :: rest).all Char.isDigit <;> simp

theorem convert_exact (text : String) : convert text = readNumber text := by
  by_cases filled : text = ""
  · subst filled
    rfl
  obtain ⟨digits,factor⟩ := factored_split text.toList
  rw [readNumber_filled text filled,naturalOf_checked]
  unfold convert
  rw [if_neg (by simpa using filled)]
  dsimp only
  rw [digits]
  split
  · rfl
  · next digital =>
    -- Digits and a letter at most are a number, so that only their size is left to compare.
    have natural := naturalOf_checked (splitMultiplier text.toList).1
    rw [if_neg digital] at natural
    have only := ((naturalOf_exact _ _).mp natural).2.1
    rw [Option.bind_eq_bind,summed_exact only,times_exact _ factor (split_positive _),Option.elim_some]
    cases word? (digitsValue (splitMultiplier text.toList).1 * (splitMultiplier text.toList).2 : Nat) <;> rfl

theorem text_filled (n : Numeral) : n.text ≠ "" :=
  fun empty => written_some n (by simpa [Numeral.text] using congrArg String.toList empty)

theorem readNumber_numeral (n : Numeral) :
    readNumber n.text = (word? n.value).elim (.error (.overflow n.text)) .ok := by
  obtain ⟨number,natural,product⟩ := (natural_numeral n.written n.value).mpr ⟨n,rfl,rfl⟩
  have written : n.text.toList = n.written := String.toList_ofList
  rw [readNumber_filled n.text (text_filled n),written,natural,Option.elim_some,product]

theorem readNumber_other (text : String) (filled : text ≠ "") (other : ∀ n : Numeral, n.text ≠ text) :
    readNumber text = .error (.invalid text) := by
  rw [readNumber_filled text filled]
  cases natural : naturalOf? (splitMultiplier text.toList).1 with
  | none => rfl
  | some number =>
    obtain ⟨n,written,_⟩ := (natural_numeral text.toList _).mp ⟨number,natural,rfl⟩
    have same : n.text = text := by rw [Numeral.text,written,String.ofList_toList]
    exact absurd same (other n)

theorem value_unique {n m : Numeral} (same : n.text = m.text) : n.value = m.value := by
  have written : n.written = m.written := String.ofList_injective same
  have split := split_written n
  rw [written,split_written] at split
  obtain ⟨digits,power⟩ := Prod.mk.inj split
  rw [Numeral.value,Numeral.value,digits,power]

theorem fits_value (n : Numeral) (w : Int64) (fits : word? n.value = some w) :
    n.value ≤ 2 ^ 63 - 1 ∧ w.toInt = n.value := by
  have value := (word?_exact _ _).mp fits
  have below := Int64.toInt_lt w
  refine ⟨?_,value⟩
  omega

theorem exceeds_value (n : Numeral) (large : word? n.value = none) : 2 ^ 63 - 1 < n.value := by
  have outside := (word?_none _).mp large
  unfold wordLimit at outside
  omega

-- A text is empty, a numeral that fits, a numeral that is too large, or none at all.
inductive Classified (text : String) : Except NumberError Int64 → Prop where
  | empty (none : text = "") : Classified text (.error .empty)
  | fits {w : Int64} (n : Numeral) (same : n.text = text) (small : n.value ≤ 2 ^ 63 - 1) (value : w.toInt = n.value) :
      Classified text (.ok w)
  | exceeds (n : Numeral) (same : n.text = text) (large : 2 ^ 63 - 1 < n.value) :
      Classified text (.error (.overflow text))
  | other (filled : text ≠ "") (none : ∀ n : Numeral, n.text ≠ text) : Classified text (.error (.invalid text))

theorem readNumber_classified (text : String) : Classified text (readNumber text) := by
  by_cases filled : text = ""
  · subst filled
    exact .empty rfl
  by_cases numeral : ∃ n : Numeral, n.text = text
  · obtain ⟨n,rfl⟩ := numeral
    rw [readNumber_numeral]
    cases word : word? n.value with
    | some w => exact .fits n rfl (fits_value n w word).1 (fits_value n w word).2
    | none => exact .exceeds n rfl (exceeds_value n word)
  · have none : ∀ n : Numeral, n.text ≠ text := fun n same => numeral ⟨n,same⟩
    rw [readNumber_other text filled none]
    exact .other filled none

theorem Classified.unique {one other : Except NumberError Int64} (first : Classified text one)
    (second : Classified text other) : one = other := by
  cases first with
  | empty none =>
    cases second with
    | empty _ => rfl
    | fits n same | exceeds n same => exact absurd (same.trans none) (text_filled n)
    | other filled => exact absurd none filled
  | fits n same small value =>
    cases second with
    | empty none => exact absurd (same.trans none) (text_filled n)
    | fits m sameOther _ valueOther =>
      rw [value_unique (sameOther.trans same.symm),← value] at valueOther
      exact congrArg Except.ok (Int64.toInt_inj.mp valueOther.symm)
    | exceeds m sameOther large =>
      rw [value_unique (sameOther.trans same.symm)] at large
      exact absurd small (Nat.not_le_of_lt large)
    | other _ none => exact absurd same (none n)
  | exceeds n same large =>
    cases second with
    | empty none => exact absurd (same.trans none) (text_filled n)
    | fits m sameOther small =>
      rw [value_unique (sameOther.trans same.symm)] at small
      exact absurd small (Nat.not_le_of_lt large)
    | exceeds _ _ _ => rfl
    | other _ none => exact absurd same (none n)
  | other filled none =>
    cases second with
    | empty empty => exact absurd empty filled
    | fits n same | exceeds n same => exact absurd same (none n)
    | other _ _ => rfl

theorem convert_classified (text : String) (result : Except NumberError Int64) :
    convert text = result ↔ Classified text result := by
  have classified := readNumber_classified text
  rw [← convert_exact] at classified
  exact ⟨fun same => same ▸ classified,classified.unique⟩

theorem convert_classifies (text : String) :
    convert text = readNumber text ∧ (∀ c, isMultiplier c = true ↔ c ∈ letterPowers.map Prod.fst) ∧
    (convert text = .error .empty ↔ text = "") ∧
    (∀ w, convert text = .ok w ↔ ∃ n : Numeral, n.text = text ∧ n.value ≤ 2 ^ 63 - 1 ∧ w.toInt = n.value) ∧
    (∀ other, convert text = .error (.overflow other) ↔
      other = text ∧ ∃ n : Numeral, n.text = text ∧ 2 ^ 63 - 1 < n.value) ∧
    (∀ other, convert text = .error (.invalid other) ↔ other = text ∧ text ≠ "" ∧ ∀ n : Numeral, n.text ≠ text) := by
  have told := convert_classified text
  refine ⟨convert_exact text,multiplier_letters,(told _).trans ⟨?_,.empty⟩,fun w => (told _).trans ⟨?_,?_⟩,
    fun other => (told _).trans ⟨?_,?_⟩,fun other => (told _).trans ⟨?_,?_⟩⟩
  · intro classified
    cases classified with
    | empty none => exact none
  · intro classified
    cases classified with
    | fits n same small value => exact ⟨n,same,small,value⟩
  · intro worth
    obtain ⟨n,same,small,value⟩ := worth
    exact .fits n same small value
  · intro classified
    cases classified with
    | exceeds n same large => exact ⟨rfl,n,same,large⟩
  · intro exceeds
    obtain ⟨rfl,n,same,large⟩ := exceeds
    exact .exceeds n same large
  · intro classified
    cases classified with
    | other filled none => exact ⟨rfl,filled,none⟩
  · intro foreign
    obtain ⟨rfl,filled,none⟩ := foreign
    exact .other filled none

end TimePetri.Script
