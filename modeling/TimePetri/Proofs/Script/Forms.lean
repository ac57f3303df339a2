import TimePetri.Proofs.Script.Brackets
import TimePetri.Proofs.Script.Glyphs
import TimePetri.Proofs.Script.Numerals

namespace TimePetri.Script

variable {name label rest left right : List Char} {w : Int64}

theorem letter_visible (c : Char) (start : isIdentStart c = true) : isBlank c = false ∧ c ≠ '#' := by
  constructor
  · cases blank : isBlank c with
    | false => rfl
    | true => rcases blank_cases c blank with rfl | rfl | rfl | rfl <;> cases start
  · rintro rfl
    cases start

theorem glyphs_word (kind : Kind) (c : Char) (cs : List Char) (start : isIdentStart c = true)
    (word : cs.all isIdentChar = true) (free : wordKind (String.ofList ((c :: cs).map Char.toLower)) = kind)
    (stops : Stops isIdentChar rest) (legal : kind ≠ .eof ∧ kind ≠ .illegal) :
    glyphs (c :: cs ++ rest) =
      glyph kind (if kind = .ident then c :: cs else (c :: cs).map Char.toLower) :: glyphs rest := by
  have lexed : lexMark (c :: (cs ++ rest)) = _ :=
    (lexMark_word c _ start).trans (lexWord_name c cs rest start (List.all_eq_true.mp word) stops kind free)
  rw [List.cons_append]
  refine glyphs_mark ?_ (letter_visible c start) legal
  rw [lexed]
  rfl

theorem glyphs_net (stops : Stops isIdentChar rest) :
    glyphs ("net".toList ++ rest) = glyph .net "net".toList :: glyphs rest :=
  glyphs_word .net 'n' ['e','t'] (by decide) (by decide) (by decide) stops (by decide)

theorem glyphs_place (stops : Stops isIdentChar rest) :
    glyphs ("pl".toList ++ rest) = glyph .place "pl".toList :: glyphs rest :=
  glyphs_word .place 'p' ['l'] (by decide) (by decide) (by decide) stops (by decide)

theorem glyphs_transition (stops : Stops isIdentChar rest) :
    glyphs ("tr".toList ++ rest) = glyph .transition "tr".toList :: glyphs rest :=
  glyphs_word .transition 't' ['r'] (by decide) (by decide) (by decide) stops (by decide)

theorem glyphs_priority (stops : Stops isIdentChar rest) :
    glyphs ("pr".toList ++ rest) = glyph .priority "pr".toList :: glyphs rest :=
  glyphs_word .priority 'p' ['r'] (by decide) (by decide) (by decide) stops (by decide)

theorem glyphs_name (isName : IsName name) (ends : NameEnds name rest) :
    glyphs (name ++ rest) = glyph .ident name :: glyphs rest := by
  have lexed := lexMark_name name rest isName ends
  cases isName with
  | bare c cs start _ _ =>
    rw [List.cons_append] at lexed ⊢
    exact glyphs_mark (by rw [lexed]; rfl) (letter_visible c start) (by decide)
  | braced tail =>
    rw [List.cons_append] at lexed ⊢
    exact glyphs_mark (by rw [lexed]; rfl) (by decide) (by decide)

theorem glyphs_label {blanks : List Char} (dark : ∀ c ∈ blanks, isBlank c = true) (isLabel : IsLabel label)
    (ends : LabelEnds label rest) : glyphs (':' :: blanks ++ label ++ rest) = glyph .label label :: glyphs rest := by
  have visible : Stops isBlank (label ++ rest) := by
    cases isLabel with
    | bare c cs _ word => rintro d ⟨⟩; exact word c (by simp)
    | braced tail => rintro d ⟨⟩; decide
  rw [List.cons_append,List.cons_append,List.append_assoc]
  refine glyphs_mark ?_ (by decide) (by decide)
  rw [lexMark,(takeWhile_stops isBlank blanks _ dark visible).2,lexLabel_label label rest isLabel ends]
  rfl

theorem glyphs_arrow (rest : List Char) : glyphs ('-' :: '>' :: rest) = glyph .arrow ['-','>'] :: glyphs rest :=
  glyphs_mark rfl (by decide) (by decide)

theorem glyphs_above (rest : List Char) : glyphs ('>' :: rest) = glyph .gt ['>'] :: glyphs rest :=
  glyphs_mark rfl (by decide) (by decide)

theorem glyphs_token {there : Position}
    (scanned : tokensFrom .start cs = ⟨kind,String.ofList shown,.start⟩ :: tokensFrom there rest) :
    glyphs cs = glyph kind shown :: glyphs rest := by
  unfold glyphs
  rw [scanned,List.map_cons,tokensFrom_unplaced there .start]
  rfl

theorem glyphs_numeral (setting : Setting) (w : Int64)
    (stops : Stops (fun c => c.isDigit || isMultiplier c) (setting.after ++ rest)) :
    glyphs (setting.around (digits w) ++ rest) = glyph setting.kind (digits w) :: glyphs rest := by
  let n : Numeral := ⟨digits w,none,digits_some w,digits_only w,nofun⟩
  have written : n.written = digits w := List.append_nil _
  have scanned := tokens_numeral setting n .start (fun _ => .inl rfl) (fun _ => stops)
  rw [Numeral.text,written] at scanned
  exact glyphs_token scanned

theorem glyphs_star (w : Int64) (delimited : Delimited rest) :
    glyphs ('*' :: digits w ++ rest) = glyph .star (digits w) :: glyphs rest := by
  have weight := glyphs_numeral (.weight .plain) w (delimited_number delimited)
  simpa [Setting.around,Setting.before,Setting.after,Setting.kind,Decoration.kind] using weight

theorem glyphs_inhibitor (w : Int64) (delimited : Delimited rest) :
    glyphs ('?' :: '-' :: digits w ++ rest) = glyph .inhibitor (digits w) :: glyphs rest := by
  have weight := glyphs_numeral (.weight .inhibitor) w (delimited_number delimited)
  simpa [Setting.around,Setting.before,Setting.after,Setting.kind,Decoration.kind] using weight

theorem glyphs_read (w : Int64) (delimited : Delimited rest) :
    glyphs ('?' :: digits w ++ rest) = glyph .read (digits w) :: glyphs rest := by
  have weight := glyphs_numeral (.weight .read) w (delimited_number delimited)
  simpa [Setting.around,Setting.before,Setting.after,Setting.kind,Decoration.kind] using weight

theorem glyphs_marking (w : Int64) (rest : List Char) :
    glyphs ('(' :: digits w ++ ')' :: rest) = glyph .marking (digits w) :: glyphs rest := by
  have stops : Stops (fun c => c.isDigit || isMultiplier c) (')' :: rest) := by rintro c ⟨⟩; decide
  have marking := glyphs_numeral .enclosed w stops
  simpa [Setting.around,Setting.before,Setting.after,Setting.kind] using marking

def shownInterval (opening : Char) (left right : List Char) (closing : Char) : List Char :=
  [opening,' '] ++ left ++ [' '] ++ right ++ [' ',closing]

theorem bracketed_shown (opening closing : Char) (lower : IsWord left) (upper : IsWord right) :
    bracketed opening closing (left ++ ',' :: right) = shownInterval opening left right closing := by
  have plain {word : List Char} (isWord : IsWord word) : word.map (fun c => if c = ',' then ' ' else c) = word := by
    refine (List.map_congr_left fun c member => ?_).trans (List.map_id word)
    have other : c ≠ ',' := by rintro rfl; exact isWord.closed member
    simp [other]
  have whole : squeeze (left ++ ',' :: right) = left ++ ',' :: right := by
    refine squeeze_visible fun c member => ?_
    rcases List.mem_append.mp member with before | behind
    · exact lower.visible c before
    · rcases List.mem_cons.mp behind with rfl | after
      · rfl
      · exact upper.visible c after
  unfold bracketed shownBody shownInterval
  rw [whole,List.map_append,List.map_cons,plain lower,plain upper]
  simp

theorem glyphs_bracketed {opening closing : Char} {body : List Char} (opens : IsBracket opening)
    (closes : IsBracket closing) (all : ∀ c ∈ body, inside c = true) (rest : List Char) :
    glyphs (opening :: (body ++ closing :: rest)) = glyph .interval (bracketed opening closing body) :: glyphs rest :=
  glyphs_token (tokens_inside opens closes all .start rest)

end TimePetri.Script
