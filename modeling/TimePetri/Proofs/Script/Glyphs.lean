import TimePetri.Proofs.Script.Numbers
import TimePetri.Proofs.Script.Spelling
import TimePetri.Proofs.Script.Unplaced

namespace TimePetri.Script

def glyphs (cs : List Char) : List Token := (tokensFrom .start cs).map Token.unplaced

def glyph (kind : Kind) (shown : List Char) : Token := ⟨kind,String.ofList shown,.start⟩

-- What of a lexeme does not depend on what was skipped before it.
def Lexeme.seen (lexeme : Lexeme) : Kind × List Char × List Char := (lexeme.kind,lexeme.shown,lexeme.rest)

variable {kind : Kind} {shown rest cs ds word : List Char} {c : Char} {w : Int64}

theorem tokensFrom_unplaced (here there : Position) (cs : List Char) :
    (tokensFrom here cs).map Token.unplaced = (tokensFrom there cs).map Token.unplaced := by
  fun_induction tokensFrom here cs generalizing there with
  | case1 here cs lexeme start token ends =>
    rw [tokensFrom.eq_1 there cs,dif_pos ends]
    rfl
  | case2 here cs lexeme start token more ih =>
    rw [tokensFrom.eq_1 there cs,dif_neg more,List.map_cons,List.map_cons,ih]
    rfl

theorem glyphs_cons (seen : (lex cs).seen = (kind,shown,rest)) (legal : kind ≠ .eof ∧ kind ≠ .illegal) :
    glyphs cs = glyph kind shown :: glyphs rest := by
  obtain ⟨sameKind,sameShown,sameRest⟩ : (lex cs).kind = kind ∧ (lex cs).shown = shown ∧ (lex cs).rest = rest := by
    simpa [Lexeme.seen] using seen
  unfold glyphs
  rw [tokensFrom.eq_1 _ cs,dif_neg (by rw [sameKind]; simp [legal]),List.map_cons,tokensFrom_unplaced _ .start]
  rw [sameKind,sameShown,sameRest]
  rfl

theorem glyphs_last (seen : (lex cs).seen = (kind,shown,rest)) (last : kind = .eof ∨ kind = .illegal) :
    glyphs cs = [glyph kind shown] := by
  obtain ⟨sameKind,sameShown,_⟩ : (lex cs).kind = kind ∧ (lex cs).shown = shown ∧ (lex cs).rest = rest := by
    simpa [Lexeme.seen] using seen
  unfold glyphs
  rw [tokensFrom.eq_1 _ cs,dif_pos (by rw [sameKind]; exact last),sameKind,sameShown]
  rfl

theorem glyphs_same (same : (lex cs).seen = (lex ds).seen) : glyphs cs = glyphs ds := by
  by_cases last : (lex ds).kind = .eof ∨ (lex ds).kind = .illegal
  · rw [glyphs_last same last,glyphs_last rfl last]
  · rw [glyphs_cons same (not_or.mp last),glyphs_cons rfl (not_or.mp last)]

theorem glyphs_end : glyphs [] = [glyph .eof "EOF".toList] := glyphs_last rfl (.inl rfl)

theorem lex_seen (cs : List Char) : (lex cs).seen = (lexMark (trivia false cs).2).seen := rfl

theorem trivia_blank (blank : isBlank c = true) (cs : List Char) :
    (trivia false (c :: cs)).2 = (trivia false cs).2 := by
  rw [trivia]
  simp [blank,trivia.skipped]

theorem glyphs_blank (blank : isBlank c = true) (cs : List Char) : glyphs (c :: cs) = glyphs cs := by
  refine glyphs_same ?_
  rw [lex_seen,lex_seen,trivia_blank blank]

theorem ofReading_glyphs (strict : Bool) (text : String) :
    (Net.ofReading strict (readingFrom .top (glyphs text.toList))).value =
      (Net.parse strict text).value.mapError ParseError.unplaced := by
  have unplaced : readingFrom .top (glyphs text.toList) = (readingOf text).unplaced := readingFrom_unplaced .top (tokens text)
  rw [unplaced,Net.ofReading_unplaced]
  rfl

def InLine (c : Char) : Prop := c ≠ '\n' ∧ c ≠ '\r'

instance (c : Char) : Decidable (InLine c) := inferInstanceAs (Decidable (_ ∧ _))

theorem all_inLine (all : cs.all (fun c => decide (InLine c)) = true) : ∀ c ∈ cs, InLine c := by simpa using all

theorem tail_inLine (tail : BracedTail cs) : ∀ c ∈ cs, InLine c := by
  induction tail with
  | close => simp [InLine]
  | escape c marked _ ih =>
    intro d member
    rcases List.mem_cons.mp member with rfl | later
    · decide
    · rcases List.mem_cons.mp later with rfl | inTail
      · rcases marked with rfl | rfl | rfl <;> decide
      · exact ih d inTail
  | plain c ordinary _ ih =>
    intro d member
    rcases List.mem_cons.mp member with rfl | later
    · exact ⟨ordinary.1,ordinary.2.1⟩
    · exact ih d later

theorem char_inLine (wanted : Char → Bool) (line : wanted '\n' = false) (back : wanted '\r' = false) (c : Char)
    (here : wanted c = true) : InLine c := by
  constructor
  · rintro rfl; rw [line] at here; cases here
  · rintro rfl; rw [back] at here; cases here

theorem isName_inLine (isName : IsName cs) : ∀ c ∈ cs, InLine c := by
  cases isName with
  | bare c cs start word _ =>
    intro d member
    rcases List.mem_cons.mp member with rfl | later
    · exact char_inLine isIdentStart (by decide) (by decide) d start
    · exact char_inLine isIdentChar (by decide) (by decide) d (word d later)
  | braced tail =>
    intro d member
    rcases List.mem_cons.mp member with rfl | later
    · decide
    · exact tail_inLine tail d later

theorem trivia_comment (inLine : ∀ d ∈ word, InLine d) (rest : List Char) :
    (trivia true (word ++ '\n' :: rest)).2 = (trivia false rest).2 := by
  induction word with
  | nil =>
    rw [List.nil_append,trivia]
    simp [trivia.skipped,isBlank]
  | cons d word ih =>
    have here := inLine d (by simp)
    rw [List.cons_append,trivia]
    simp only [here.1,here.2,ne_eq,not_false_eq_true,decide_true,Bool.and_true,if_true]
    exact ih fun e member => inLine e (List.mem_cons_of_mem _ member)

theorem glyphs_comment (word : List Char) (inLine : ∀ d ∈ word, InLine d) (rest : List Char) :
    glyphs ('#' :: word ++ '\n' :: rest) = glyphs rest := by
  refine glyphs_same ?_
  rw [lex_seen,lex_seen,← trivia_comment inLine rest,List.cons_append,trivia]
  simp [trivia.skipped,isBlank]

theorem glyphs_mark (seen : (lexMark (c :: cs)).seen = (kind,shown,rest)) (visible : isBlank c = false ∧ c ≠ '#')
    (legal : kind ≠ .eof ∧ kind ≠ .illegal) : glyphs (c :: cs) = glyph kind shown :: glyphs rest := by
  refine glyphs_cons ?_ legal
  rw [lex_seen,trivia]
  simpa [visible] using seen

-- What stands between two tokens of a rendered text starts with a blank.
def Delimited (rest : List Char) : Prop := ∃ c more, rest = c :: more ∧ isBlank c = true

theorem delimited_stops (wanted : Char → Bool) (delimited : Delimited rest)
    (never : ∀ c, isBlank c = true → wanted c = false) : Stops wanted rest := by
  obtain ⟨c,more,rfl,blank⟩ := delimited
  intro d here
  cases here
  exact never c blank

theorem blank_cases (c : Char) (blank : isBlank c = true) : c = ' ' ∨ c = '\t' ∨ c = '\r' ∨ c = '\n' := by
  simpa [isBlank,or_assoc] using blank

theorem delimited_word (delimited : Delimited rest) : Stops isIdentChar rest := by
  refine delimited_stops _ delimited fun c blank => ?_
  rcases blank_cases c blank with rfl | rfl | rfl | rfl <;> decide

theorem delimited_number (delimited : Delimited rest) : Stops (fun c => c.isDigit || isMultiplier c) rest := by
  refine delimited_stops _ delimited fun c blank => ?_
  rcases blank_cases c blank with rfl | rfl | rfl | rfl <;> decide

end TimePetri.Script
