import TimePetri.Script.Lexeme

namespace TimePetri.Script

theorem trivia_source (inComment : Bool) (cs : List Char) :
    (trivia inComment cs).1 ++ (trivia inComment cs).2 = cs := by
  induction cs generalizing inComment with
  | nil => rfl
  | cons c cs ih =>
    unfold trivia
    split
    · simp [trivia.skipped,ih]
    · split
      · simp [trivia.skipped,ih]
      · split
        · simp [trivia.skipped,ih]
        · rfl

theorem numeral_source (cs : List Char) : (numeral cs).1 ++ (numeral cs).2 = cs := by
  have whole := List.takeWhile_append_dropWhile (p := Char.isDigit) (l := cs)
  unfold numeral
  split
  · next noDigits => rw [noDigits] at whole; exact whole
  · next ends _ => rw [ends] at whole; exact whole
  · next continues _ =>
    rw [continues] at whole
    split
    · simpa using whole
    · exact whole

@[simp] theorem accept_source (kind : Kind) (shown body rest : List Char) :
    (accept kind shown body rest).source = body ++ rest := by simp [accept,Lexeme.source]

@[simp] theorem reject_source (rest : List Char) : (reject rest).source = rest := by
  cases rest <;> simp [reject,Lexeme.source]

def Immediate (lexeme : Lexeme) : Prop := lexeme.lead = []

@[simp] theorem accept_immediate (kind : Kind) (shown body rest : List Char) :
    Immediate (accept kind shown body rest) := rfl

@[simp] theorem grow_immediate (shown body : List Char) (lexeme : Lexeme) :
    Immediate (lexeme.grow shown body) ↔ Immediate lexeme := Iff.rfl

theorem grow_source (shown body : List Char) (lexeme : Lexeme) (immediate : Immediate lexeme) :
    (lexeme.grow shown body).source = body ++ lexeme.source := by
  unfold Immediate at immediate
  simp [Lexeme.grow,Lexeme.source,immediate]

theorem skip_source (lead : List Char) (lexeme : Lexeme) :
    (lexeme.skip lead).source = lead ++ lexeme.source := by
  simp [Lexeme.skip,Lexeme.source]

-- A lexer reads its input if it skips nothing and accounts for every character.
def Reads (lexeme : Lexeme) (cs : List Char) : Prop := Immediate lexeme ∧ lexeme.source = cs

theorem accept_reads (kind : Kind) (shown body rest : List Char) :
    Reads (accept kind shown body rest) (body ++ rest) := ⟨rfl,accept_source _ _ _ _⟩

theorem reject_reads (rest : List Char) : Reads (reject rest) rest := ⟨rfl,reject_source _⟩

theorem grow_reads (shown body : List Char) (lexeme : Lexeme) (cs : List Char) (reads : Reads lexeme cs) :
    Reads (lexeme.grow shown body) (body ++ cs) :=
  ⟨reads.1,by rw [grow_source _ _ _ reads.1,reads.2]⟩

theorem lexWord_reads (cs : List Char) : Reads (lexWord cs) cs := by
  unfold lexWord
  dsimp only
  split <;> simp [Reads]

theorem lexWord_body (cs : List Char) : (lexWord cs).body = cs.takeWhile isIdentChar := by
  unfold lexWord
  dsimp only
  split <;> rfl

theorem isIdentStart_char (c : Char) (start : isIdentStart c = true) : isIdentChar c = true := by
  unfold isIdentStart at start
  simp [isIdentChar,Char.isAlphanum,start]

theorem lexBraced_reads (kind : Kind) (cs : List Char) : Reads (lexBraced kind cs) cs := by
  fun_induction lexBraced kind cs with
  | case1 => exact reject_reads _
  | case2 => exact accept_reads _ _ _ _
  | case3 _ _ _ ih => exact grow_reads _ _ _ _ ih
  | case4 => exact accept_reads _ _ _ _
  | case5 => exact accept_reads _ _ _ _
  | case6 => exact accept_reads _ _ _ _
  | case7 _ _ _ _ _ _ ih => exact grow_reads _ _ _ _ ih

theorem lexBareLabel_reads (cs : List Char) : Reads (lexBareLabel cs) cs := by
  have whole := List.takeWhile_append_dropWhile (p := (!isBlank ·)) (l := cs)
  unfold lexBareLabel
  dsimp only
  split
  · next ends => rw [ends] at whole; unfold Reads; simpa using whole
  · simp [Reads]

theorem lexLabel_reads (cs : List Char) : Reads (lexLabel cs) cs := by
  unfold lexLabel
  split
  · exact accept_reads _ _ _ _
  · exact grow_reads _ _ _ _ (lexBraced_reads _ _)
  · split
    · exact reject_reads _
    · exact lexBareLabel_reads _

theorem lexWeight_reads (kind : Kind) (decoration cs : List Char) :
    Reads (lexWeight kind decoration cs) (decoration ++ cs) := by
  have whole := numeral_source cs
  unfold lexWeight
  split
  · next rest found => rw [found] at whole; subst whole; exact grow_reads _ _ _ _ (reject_reads _)
  · next number rest _ found => rw [found] at whole; subst whole; unfold Reads; simp

theorem lexTest_reads (cs : List Char) : Reads (lexTest cs) ('?' :: cs) := by
  unfold lexTest
  split <;> exact lexWeight_reads _ _ _

theorem lexMarking_reads (cs : List Char) : Reads (lexMarking cs) ('(' :: cs) := by
  have whole := numeral_source cs
  unfold lexMarking
  split
  · next rest found => rw [found] at whole; subst whole; exact grow_reads _ _ _ _ (reject_reads _)
  · next number rest _ found => rw [found] at whole; subst whole; unfold Reads; simp
  · next number rest _ _ found => rw [found] at whole; subst whole; exact grow_reads _ _ _ _ (reject_reads _)

theorem lexInterval_reads (cs : List Char) : Reads (lexInterval cs) cs := by
  fun_induction lexInterval cs with
  | case1 => exact reject_reads _
  | case2 => exact accept_reads _ _ _ _
  | case3 _ _ ih => exact grow_reads _ _ _ _ ih
  | case4 _ _ _ _ _ ih => exact grow_reads _ _ _ _ ih
  | case5 _ _ _ _ _ _ ih => exact grow_reads _ _ _ _ ih
  | case6 => exact reject_reads _

theorem lexInt_reads (c : Char) (cs : List Char) : Reads (lexInt c cs) (c :: cs) := by
  have whole := numeral_source cs
  unfold lexInt
  unfold Reads
  simp [whole]

theorem lexMark_source (cs : List Char) : (lexMark cs).source = cs := by
  unfold lexMark
  split
  · rfl
  · exact (grow_reads _ _ _ _ (lexBraced_reads _ _)).2
  · rw [skip_source,(lexLabel_reads _).2]; simp
  · exact (lexTest_reads _).2
  · exact (lexWeight_reads _ _ _).2
  · rfl
  · exact (lexMarking_reads _).2
  · exact (grow_reads _ _ _ _ (lexInterval_reads _)).2
  · exact (grow_reads _ _ _ _ (lexInterval_reads _)).2
  · rfl
  · rfl
  · split
    · exact (lexWord_reads _).2
    · split
      · exact (lexInt_reads _ _).2
      · exact reject_source _

theorem lexMark_rest (c : Char) (cs : List Char) : (lexMark (c :: cs)).rest.length ≤ cs.length := by
  have whole := congrArg List.length (lexMark_source (c :: cs))
  have taken : (lexMark (c :: cs)).lead ++ (lexMark (c :: cs)).body ≠ [] := by
    unfold lexMark
    split <;> try simp [Lexeme.grow,Lexeme.skip,accept]
    · simp_all
    · unfold lexTest
      split <;> unfold lexWeight <;> split <;> simp [Lexeme.grow,accept]
    · unfold lexWeight
      split <;> simp [Lexeme.grow,accept]
    · unfold lexMarking
      split <;> simp [Lexeme.grow,accept]
    · split
      · next start => simp [lexWord_body,isIdentStart_char _ start]
      · split
        · simp [lexInt,accept]
        · simp [reject]
  have positive := List.length_pos_iff.mpr taken
  simp only [Lexeme.source,List.length_append,List.length_cons] at whole positive
  omega

theorem lex_source (cs : List Char) : (lex cs).source = cs := by
  unfold lex
  rw [skip_source,lexMark_source,trivia_source]

end TimePetri.Script
