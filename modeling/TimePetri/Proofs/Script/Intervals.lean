import TimePetri.Proofs.Script.Forms

namespace TimePetri

open Script

namespace Bound

def opening : Bound → Char
  | .opened _ => ']'
  | _ => '['

def closing : Bound → Char
  | .closed _ => ']'
  | _ => '['

def part : Bound → List Char
  | .infinite => ['w']
  | .closed v => digits v
  | .opened v => digits v

variable {b : Bound}

theorem part_only (b : Bound) : ∀ c ∈ b.part, (c.isDigit || c = 'w') = true := by
  intro c member
  cases b with
  | infinite => simp_all [part]
  | closed v => simp [digits_only v c member]
  | opened v => simp [digits_only v c member]

theorem part_some (b : Bound) : b.part ≠ [] := by
  cases b with
  | infinite => simp [part]
  | closed v => exact digits_some v
  | opened v => exact digits_some v

theorem part_word (b : Bound) : IsWord b.part :=
  ⟨part_some b,fun c member => part_visible c (part_only b c member),fun comma => by cases part_only b _ comma⟩

theorem opening_cases (b : Bound) : b.opening = '[' ∨ b.opening = ']' := by cases b <;> simp [opening]

theorem closing_cases (b : Bound) : b.closing = '[' ∨ b.closing = ']' := by cases b <;> simp [closing]

theorem digits_infinite (w : Int64) : digits w ≠ ['w'] := by
  intro same
  have only := digits_only w 'w' (by simp [same])
  cases only

end Bound

namespace Interval

variable {i : Interval}

def written (i : Interval) : List Char :=
  i.left.opening :: (i.left.part ++ ',' :: i.right.part ++ [i.right.closing])

def shown (i : Interval) : List Char := shownInterval i.left.opening i.left.part i.right.part i.right.closing

theorem text_written (declared : Declared i) : i.text.toList = i.written := by
  obtain ⟨low,lowValue,lowNonneg⟩ := declared.left
  have high := declared.right
  unfold text written
  cases left : i.left with
  | infinite => rw [left] at lowValue; cases lowValue
  | closed v | opened v =>
    rw [left] at lowValue
    cases lowValue
    cases right : i.right with
    | infinite =>
      simp [text.rightText,decimal_digits lowNonneg,Bound.opening,Bound.part,Bound.closing]
    | closed r | opened r =>
      have highNonneg : 0 ≤ r.toInt := high r (by rw [right]; rfl)
      simp [text.rightText,decimal_digits lowNonneg,decimal_digits highNonneg,Bound.opening,Bound.part,Bound.closing]

theorem fields_shown (i : Interval) :
    fields (String.ofList i.shown) = [[i.left.opening],i.left.part,i.right.part,[i.right.closing]] := by
  have lower := Bound.part_word i.left
  have upper := Bound.part_word i.right
  have two : parts (i.left.part ++ ',' :: i.right.part) = [i.left.part,i.right.part] :=
    literal_parts ⟨_,_,rfl,padded_self _,padded_self _⟩ lower upper
  rw [shown,← bracketed_shown _ _ lower upper,fields_bracketed (Bound.opening_cases _) (Bound.closing_cases _),two]
  rfl

theorem leftBound_part (b : Bound) (v : Int64) (value : b.value? = some v) : leftBound [b.opening] v = b := by
  cases b with
  | infinite => cases value
  | closed w => cases value; rfl
  | opened w => cases value; rfl

theorem rightBound_part (b : Bound) (v : Int64) (value : b.value? = some v) : rightBound [b.closing] v = b := by
  cases b with
  | infinite => cases value
  | closed w => cases value; rfl
  | opened w => cases value; rfl

theorem part_value (b : Bound) (v : Int64) (value : b.value? = some v) : b.part = digits v := by
  cases b with
  | infinite => cases value
  | closed w => cases value; rfl
  | opened w => cases value; rfl

theorem bounds_shown (declared : Declared i) : bounds? (String.ofList i.shown) = some (i.left,i.right) := by
  obtain ⟨low,lowValue,lowNonneg⟩ := declared.left
  unfold bounds?
  rw [fields_shown]
  dsimp only
  rw [part_value _ _ lowValue,valueField_digits lowNonneg]
  change (if i.right.part = ['w'] then _ else _) = _
  rw [leftBound_part _ _ lowValue]
  cases highValue : i.right.value? with
  | none =>
    have infinite : i.right = .infinite := by
      cases right : i.right with
      | infinite => rfl
      | closed r | opened r => rw [right] at highValue; cases highValue
    rw [infinite]
    rfl
  | some high =>
    have highNonneg := declared.right high highValue
    rw [part_value _ _ highValue,if_neg (Bound.digits_infinite high),valueField_digits highNonneg]
    change some (i.left,rightBound [i.right.closing] high) = _
    rw [rightBound_part _ _ highValue]

theorem readInterval_shown (declared : Declared i) (name : String) :
    readInterval (glyph .interval i.shown) name = .ok i := by
  unfold readInterval glyph
  dsimp only
  rw [bounds_shown declared]
  dsimp only
  rw [make_exact declared]
  rfl

theorem glyphs_written (i : Interval) (rest : List Char) :
    glyphs (i.written ++ rest) = glyph .interval i.shown :: glyphs rest := by
  have whole : i.written ++ rest =
      i.left.opening :: ((i.left.part ++ ',' :: i.right.part) ++ i.right.closing :: rest) := by simp [written]
  have all : ∀ c ∈ i.left.part ++ ',' :: i.right.part, inside c = true := by
    intro c member
    rcases List.mem_append.mp member with before | behind
    · simp [inside,Bound.part_only _ c before]
    · rcases List.mem_cons.mp behind with rfl | after
      · rfl
      · simp [inside,Bound.part_only _ c after]
  rw [whole,glyphs_bracketed (Bound.opening_cases _) (Bound.closing_cases _) all,
    bracketed_shown _ _ (Bound.part_word _) (Bound.part_word _)]
  rfl

end Interval

end TimePetri
