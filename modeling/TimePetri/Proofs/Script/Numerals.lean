import TimePetri.Proofs.Script.Numbers
import TimePetri.Proofs.Script.Stream

namespace TimePetri.Script

structure Numeral where
  digits : List Char
  suffix : Option Char
  some : digits ≠ []
  only : ∀ c ∈ digits, c.isDigit = true
  letter : ∀ c ∈ suffix, isMultiplier c = true

def Numeral.written (n : Numeral) : List Char := n.digits ++ n.suffix.toList

def Numeral.text (n : Numeral) : String := String.ofList n.written

-- What follows cannot continue the number. Behind a letter anything may follow.
def Numeral.Ends (n : Numeral) (rest : List Char) : Prop :=
  n.suffix = none → Stops (fun c => c.isDigit || isMultiplier c) rest

-- A number that is one token even where it stands alone.
def Numeral.Whole (n : Numeral) : Prop := n.suffix = none ∨ 2 ≤ n.digits.length

-- The places of the grammar where a number stands: alone, behind a sign of an arc, and
-- between parentheses.
inductive Setting where
  | alone
  | weight (decoration : Decoration)
  | enclosed
  deriving DecidableEq

def Setting.kind : Setting → Kind
  | .alone => .int
  | .weight decoration => decoration.kind
  | .enclosed => .marking

def Setting.before : Setting → List Char
  | .alone => []
  | .weight .plain => ['*']
  | .weight .read => ['?']
  | .weight .inhibitor => ['?','-']
  | .enclosed => ['(']

def Setting.after : Setting → List Char
  | .enclosed => [')']
  | _ => []

def Setting.around (setting : Setting) (cs : List Char) : List Char := setting.before ++ cs ++ setting.after

variable {n : Numeral} {rest : List Char}

theorem multiplier_digit (c : Char) (multiplier : isMultiplier c = true) : c.isDigit = false := by
  cases digit : c.isDigit with
  | false => rfl
  | true =>
    unfold isMultiplier at multiplier
    rw [digit_multiplier c digit] at multiplier
    cases multiplier

theorem multiplier_cases (c : Char) (multiplier : isMultiplier c = true) :
    c = 'K' ∨ c = 'M' ∨ c = 'G' ∨ c = 'T' ∨ c = 'P' ∨ c = 'E' := by
  unfold isMultiplier multiplier? at multiplier
  split at multiplier <;> simp_all

theorem letter_above (c : Char) (letter : isIdentStart c = true) : 'A'.val ≤ c.val := by
  have cased : c.isUpper = true ∨ c.isLower = true := Bool.or_eq_true_iff.mp letter
  rcases cased with upper | lower
  · exact (of_decide_eq_true upper).1
  · have above : 'a'.val ≤ c.val := of_decide_eq_true (Bool.and_eq_true_iff.mp lower).1
    exact UInt32.le_trans (by decide) above

theorem digit_letter (c : Char) (digit : c.isDigit = true) : ¬ isIdentStart c = true := by
  intro letter
  have below : c.val ≤ '9'.val := of_decide_eq_true (Bool.and_eq_true_iff.mp digit).2
  exact absurd (UInt32.le_trans (letter_above c letter) below) (by decide)

theorem numeral_written (n : Numeral) (ends : n.Ends rest) : numeral (n.written ++ rest) = (n.written,rest) := by
  obtain ⟨digits,suffix,some,only,letter⟩ := n
  have digitStops : Stops Char.isDigit (suffix.toList ++ rest) := by
    cases suffix with
    | none => exact fun c here => (Bool.or_eq_false_iff.mp (ends rfl c here)).1
    | some c =>
      rintro d ⟨⟩
      exact multiplier_digit c (letter c rfl)
  obtain ⟨taken,dropped⟩ := takeWhile_stops Char.isDigit digits _ only digitStops
  dsimp only [Numeral.written]
  unfold numeral
  rw [List.append_assoc,taken,dropped]
  cases digits with
  | nil => exact absurd rfl some
  | cons d ds =>
    cases suffix with
    | none =>
      cases rest with
      | nil => simp
      | cons c cs =>
        have plain : isMultiplier c = false := (Bool.or_eq_false_iff.mp (ends rfl c rfl)).2
        simp [plain]
    | some c => simp [letter c rfl]

theorem numeral_none (stops : Stops Char.isDigit rest) : numeral rest = ([],rest) := by
  obtain ⟨taken,dropped⟩ := takeWhile_stops Char.isDigit [] rest (by simp) stops
  rw [List.nil_append] at taken dropped
  unfold numeral
  rw [taken,dropped]

theorem written_some (n : Numeral) : n.written ≠ [] := by
  unfold Numeral.written
  simp [n.some]

theorem lexWeight_written (kind : Kind) (decoration : List Char) (n : Numeral) (ends : n.Ends rest) :
    lexWeight kind decoration (n.written ++ rest) = accept kind n.written (decoration ++ n.written) rest := by
  unfold lexWeight
  rw [numeral_written n ends]
  split
  · next found => exact absurd (congrArg Prod.fst found) (written_some n)
  · next found => cases found; rfl

theorem lexTest_written (n : Numeral) (ends : n.Ends rest) :
    lexTest (n.written ++ rest) = accept .read n.written ('?' :: n.written) rest := by
  rw [← List.singleton_append,← lexWeight_written .read ['?'] n ends]
  unfold lexTest
  split
  · next found =>
    cases same : n.digits with
    | nil => exact absurd same n.some
    | cons d ds =>
      have digit := n.only d (by simp [same])
      rw [Numeral.written,same] at found
      cases found
      cases digit
  · rfl

theorem lexMarking_written (n : Numeral) (rest : List Char) :
    lexMarking (n.written ++ ')' :: rest) = accept .marking n.written ('(' :: n.written ++ [')']) rest := by
  have ends : n.Ends (')' :: rest) := by rintro - c ⟨⟩; decide
  unfold lexMarking
  rw [numeral_written n ends]
  split
  · next found => exact absurd (congrArg Prod.fst found) (written_some n)
  · next found => cases found; rfl
  · next others found => cases found; exact (others _ rfl).elim

theorem lexMark_whole (n : Numeral) (whole : n.Whole) (ends : n.Ends rest) :
    lexMark (n.written ++ rest) = accept .int n.written n.written rest := by
  obtain ⟨digits,suffix,some,only,letter⟩ := n
  cases digits with
  | nil => exact absurd rfl some
  | cons d ds =>
    have digit : d.isDigit = true := only d (by simp)
    dsimp only [Numeral.written]
    rw [List.cons_append,List.cons_append,lexMark_digit _ _ digit (digit_letter d digit)]
    unfold lexInt
    cases ds with
    | nil =>
      have bare : suffix = none := whole.resolve_right (by simp)
      subst bare
      have stops : Stops Char.isDigit rest := fun c here => (Bool.or_eq_false_iff.mp (ends rfl c here)).1
      simp [numeral_none stops]
    | cons e es =>
      -- The first digit is taken alone. What is left is a number by itself.
      let tail : Numeral := ⟨e :: es,suffix,by simp,fun c member => only c (List.mem_cons_of_mem _ member),letter⟩
      have behind : numeral (e :: es ++ suffix.toList ++ rest) = (e :: es ++ suffix.toList,rest) :=
        numeral_written tail ends
      rw [behind]

theorem lexMark_split (n : Numeral) (split : ¬ n.Whole) (rest : List Char) :
    lexMark (n.written ++ rest) = accept .int n.digits n.digits (n.suffix.toList ++ rest) := by
  obtain ⟨digits,suffix,some,only,letter⟩ := n
  unfold Numeral.Whole at split
  obtain ⟨suffixed,short⟩ := not_or.mp split
  dsimp only at suffixed short
  match digits, suffix with
  | [],_ => exact absurd rfl some
  | [d],none => exact absurd rfl suffixed
  | [d],.some c =>
    have digit : d.isDigit = true := only d (by simp)
    have stops : Stops Char.isDigit (c :: rest) := by
      rintro e ⟨⟩
      exact multiplier_digit c (letter c rfl)
    change lexMark (d :: c :: rest) = _
    rw [lexMark_digit _ _ digit (digit_letter d digit)]
    unfold lexInt
    rw [numeral_none stops]
    rfl
  | d :: e :: es,_ => simp at short

theorem lexMark_numeral (setting : Setting) (n : Numeral) (whole : setting = .alone → n.Whole)
    (ends : n.Ends (setting.after ++ rest)) :
    lexMark (setting.around n.written ++ rest) = accept setting.kind n.written (setting.around n.written) rest := by
  unfold Setting.around
  match setting with
  | .alone => simpa [Setting.before,Setting.after,Setting.kind] using lexMark_whole n (whole rfl) ends
  | .weight .plain =>
    have lexed := lexWeight_written .star ['*'] n ends
    simpa [Setting.before,Setting.after,Setting.kind,Decoration.kind,lexMark] using lexed
  | .weight .read =>
    have lexed := lexTest_written n ends
    simpa [Setting.before,Setting.after,Setting.kind,Decoration.kind,lexMark] using lexed
  | .weight .inhibitor =>
    have lexed := lexWeight_written .inhibitor ['?','-'] n ends
    simpa [Setting.before,Setting.after,Setting.kind,Decoration.kind,lexMark,lexTest] using lexed
  | .enclosed =>
    have lexed := lexMarking_written n rest
    simpa [Setting.before,Setting.after,Setting.kind,Decoration.kind,lexMark] using lexed

theorem digits_visible (n : Numeral) (rest : List Char) :
    Stops (fun c => isBlank c || c = '#') (n.written ++ rest) := by
  unfold Numeral.written
  cases same : n.digits with
  | nil => exact absurd same n.some
  | cons d ds => exact visible_cons Char.isDigit (by decide) d (n.only d (by simp [same])) _

theorem around_visible (setting : Setting) (n : Numeral) (rest : List Char) :
    Stops (fun c => isBlank c || c = '#') (setting.around n.written ++ rest) := by
  match setting with
  | .alone =>
    have visible := digits_visible n rest
    simpa [Setting.around,Setting.before,Setting.after] using visible
  | .weight .plain | .weight .read | .weight .inhibitor | .enclosed => rintro c ⟨⟩; decide

theorem setting_kind (setting : Setting) : ¬ setting.kind.Last := by
  unfold Kind.Last
  match setting with
  | .alone | .weight .plain | .weight .read | .weight .inhibitor | .enclosed => simp [Setting.kind,Decoration.kind]

theorem tokens_numeral (setting : Setting) (n : Numeral) (here : Position) (whole : setting = .alone → n.Whole)
    (ends : n.Ends (setting.after ++ rest)) :
    tokensFrom here (setting.around n.written ++ rest) =
      ⟨setting.kind,n.text,here⟩ :: tokensFrom (here.after (setting.around n.written)) rest :=
  tokensFrom_accept (around_visible setting n rest) (lexMark_numeral setting n whole ends) (setting_kind setting) here

theorem tokens_split (n : Numeral) (here : Position) (split : ¬ n.Whole) (rest : List Char) :
    tokensFrom here (n.written ++ rest) =
      ⟨.int,String.ofList n.digits,here⟩ :: tokensFrom (here.after n.digits) (n.suffix.toList ++ rest) :=
  tokensFrom_accept (digits_visible n rest) (lexMark_split n split rest) (by simp [Kind.Last]) here

end TimePetri.Script
