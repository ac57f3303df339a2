import TimePetri.Proofs.Script.Stream
import TimePetri.Script.Cursor

namespace TimePetri.Script

-- What is skipped in front of a token: blanks and comments, as far as they go. A comment
-- runs to the end of its line.
inductive Skipped : List Char → List Char → Prop where
  | none {following : List Char} (visible : Stops (fun c => isBlank c || c = '#') following) : Skipped [] following
  | blank {c : Char} {skipped following : List Char} (dark : isBlank c = true) (further : Skipped skipped following) :
      Skipped (c :: skipped) following
  | comment {line skipped following : List Char} (within : ∀ c ∈ line, Cursor.inLine c = true)
      (ends : Stops Cursor.inLine (skipped ++ following)) (further : Skipped skipped following) :
      Skipped ('#' :: line ++ skipped) following

def Lexeme.placed (lexeme : Lexeme) (shown : List Char) (start here : Position) : Token × Cursor :=
  (⟨lexeme.kind,String.ofList (shown ++ lexeme.shown),start⟩,⟨lexeme.rest,here.after lexeme.body⟩)

variable {kind : Kind} {shown body cs rest skipped following : List Char} {start here : Position} {c : Char}

theorem run_split (wanted : Char → Bool) (cursor : Cursor) : ∃ taken, cursor.rest = taken ++ (cursor.run wanted).2.rest ∧
    (∀ c ∈ taken, wanted c = true) ∧ Stops wanted (cursor.run wanted).2.rest ∧
      (cursor.run wanted).2.here = cursor.here.after taken := by
  rw [Cursor.run_exact]
  exact ⟨_,List.takeWhile_append_dropWhile.symm,fun c member => List.mem_takeWhile_imp member,dropWhile_stops _ _,rfl⟩

theorem blanks_skipped (dark : ∀ c ∈ cs, isBlank c = true) (further : Skipped skipped following) :
    Skipped (cs ++ skipped) following := by
  induction cs with
  | nil => exact further
  | cons c rest ih => exact .blank (dark c (by simp)) (ih fun d member => dark d (List.mem_cons_of_mem _ member))

theorem trivia_within (within : ∀ c ∈ cs, Cursor.inLine c = true) (ends : Stops Cursor.inLine rest) :
    trivia true (cs ++ rest) = (cs ++ (trivia false rest).1,(trivia false rest).2) := by
  induction cs with
  | nil =>
    cases rest with
    | nil => rfl
    | cons c rest =>
      have feed : c = '\n' ∨ c = '\r' := by simpa [Cursor.inLine,or_iff_not_imp_left] using ends c rfl
      rcases feed with rfl | rfl <;> rfl
  | cons c more ih =>
    have inLine : c ≠ '\n' ∧ c ≠ '\r' := by simpa [Cursor.inLine] using within c (by simp)
    rw [List.cons_append,trivia,ih fun d member => within d (List.mem_cons_of_mem _ member)]
    simp [inLine,trivia.skipped]

theorem skipped_trivia (skips : Skipped skipped following) : trivia false (skipped ++ following) = (skipped,following) := by
  induction skips with
  | none visible => exact trivia_none visible
  | blank dark further ih =>
    rw [List.cons_append,trivia,ih]
    simp [dark,trivia.skipped]
  | comment within ends further ih =>
    rw [List.cons_append,List.cons_append,List.append_assoc,trivia,trivia_within within ends,ih]
    simp [isBlank,trivia.skipped]

theorem skip_skipped (cursor : Cursor) : ∃ skipped, cursor.rest = skipped ++ cursor.skip.rest ∧
    Skipped skipped cursor.skip.rest ∧ cursor.skip.here = cursor.here.after skipped := by
  fun_induction Cursor.skip cursor with
  | case1 cursor visible comment ih =>
    obtain ⟨blanks,whole,dark,_,first⟩ := run_split isBlank cursor
    obtain ⟨line,more,within,ends,second⟩ := run_split Cursor.inLine visible
    obtain ⟨skipped,split,skips,third⟩ := ih
    cases line with
    | nil =>
      have sharp : Cursor.inLine '#' = false := ends '#' (by rw [List.nil_append] at more; rw [← more]; exact comment)
      cases sharp
    | cons c line =>
      have sharp : c = '#' := by
        unfold Cursor.peek at comment
        rw [more] at comment
        exact Option.some.inj comment
      subst sharp
      rw [split] at more ends
      refine ⟨blanks ++ ('#' :: line ++ skipped),?_,blanks_skipped dark (.comment ?_ ends skips),?_⟩
      · rw [whole]
        exact (congrArg (blanks ++ ·) more).trans (by simp)
      · exact fun d member => within d (List.mem_cons_of_mem _ member)
      · rw [third,second,first,after_append,after_append]
  | case2 cursor visible plain =>
    obtain ⟨blanks,whole,dark,stops,first⟩ := run_split isBlank cursor
    refine ⟨blanks,whole,?_,first⟩
    have visible : Skipped [] visible.rest := .none fun c here => by
      have other : c ≠ '#' := fun sharp => plain (by rw [← sharp]; exact here)
      simp [stops c here,other]
    have skips := blanks_skipped dark visible
    rwa [List.append_nil] at skips

theorem lex_skipped (cs : List Char) : ∃ skipped following, cs = skipped ++ following ∧ Skipped skipped following ∧
    lex cs = (lexMark following).skip skipped := by
  obtain ⟨skipped,whole,skips,_⟩ := skip_skipped ⟨cs,.start⟩
  refine ⟨skipped,_,whole,skips,?_⟩
  have parts := skipped_trivia skips
  rw [← whole] at parts
  unfold lex
  rw [parts]

theorem skip_exact (cursor : Cursor) :
    cursor.skip = ⟨(trivia false cursor.rest).2,cursor.here.after (trivia false cursor.rest).1⟩ := by
  obtain ⟨skipped,split,skips,place⟩ := skip_skipped cursor
  have parts := skipped_trivia skips
  rw [← split] at parts
  rw [parts,← place]

theorem placed_grow (lexeme : Lexeme) (more : List Char) :
    (lexeme.grow more body).placed shown start here = lexeme.placed (shown ++ more) start (here.after body) := by
  simp [Lexeme.placed,Lexeme.grow,after_append]

theorem placed_reject (cs : List Char) : (reject cs).placed shown start here = Cursor.broken shown start ⟨cs,here⟩ := by
  cases cs <;> rfl

theorem bracedFrom_exact (kind : Kind) (start : Position) (shown : List Char) (here : Position) (cs : List Char) :
    Cursor.bracedFrom kind start shown here cs = (lexBraced kind cs).placed shown start here := by
  fun_induction lexBraced kind cs generalizing shown here with
  | case1 => simp [Cursor.bracedFrom,placed_reject,Cursor.broken,Cursor.bump]
  | case2 cs => rfl
  | case3 c cs marked ih => rw [Cursor.bracedFrom,if_pos marked,ih,placed_grow]; rfl
  | case4 c cs plain => rw [Cursor.bracedFrom,if_neg plain]; rfl
  | case5 c cs closing escape broken =>
    rw [Cursor.bracedFrom,if_pos broken]
    · simp [Cursor.ended,Lexeme.placed,accept,Position.after]
    · exact closing
    · exact escape
  | case6 cs closing escape whole =>
    rw [Cursor.bracedFrom,if_neg whole,if_pos rfl]
    · rfl
    · exact closing
    · exact escape
  | case7 c cs closing escape whole backslash ih =>
    rw [Cursor.bracedFrom,if_neg whole,if_neg backslash,ih,placed_grow]
    · rfl
    · exact closing
    · exact escape

theorem intervalFrom_exact (start : Position) (shown : List Char) (here : Position) (cs : List Char) :
    Cursor.intervalFrom start shown here cs = (lexInterval cs).placed shown start here := by
  fun_induction lexInterval cs generalizing shown here with
  | case1 => simp [Cursor.intervalFrom,placed_reject,Cursor.broken,Cursor.bump]
  | case2 c cs closing => rw [Cursor.intervalFrom,if_pos closing]; rfl
  | case3 cs bracket ih =>
    rw [Cursor.intervalFrom,if_neg bracket,if_pos rfl,ih,placed_grow]
    rfl
  | case4 c cs bracket comma part ih =>
    rw [Cursor.intervalFrom,if_neg bracket,if_neg comma,if_pos part,ih,placed_grow]
    rfl
  | case5 c cs bracket comma part dark ih =>
    rw [Cursor.intervalFrom,if_neg bracket,if_neg comma,if_neg part,if_pos dark,ih,placed_grow,List.append_nil]
    rfl
  | case6 c cs bracket comma part plain =>
    rw [Cursor.intervalFrom,if_neg bracket,if_neg comma,if_neg part,if_neg plain,placed_reject]
    rfl

theorem numeral_exact (cursor : Cursor) : cursor.numeral =
    ((numeral cursor.rest).1,⟨(numeral cursor.rest).2,cursor.here.after (numeral cursor.rest).1⟩) := by
  unfold Cursor.numeral numeral
  rw [Cursor.run_exact]
  generalize cursor.rest.takeWhile Char.isDigit = digits
  generalize cursor.rest.dropWhile Char.isDigit = rest
  cases digits with
  | nil => cases rest <;> rfl
  | cons d ds =>
    cases rest with
    | nil => rfl
    | cons c rest =>
      cases multiplier : isMultiplier c <;> simp [Cursor.peek,Cursor.bump,multiplier,Position.after]

theorem word_exact (start : isIdentStart c = true) :
    Cursor.word c here ⟨cs,here.step c⟩ = (lexWord (c :: cs)).placed [] here here := by
  have first := isIdentStart_char c start
  unfold Cursor.word lexWord
  rw [Cursor.run_exact]
  simp only [List.takeWhile_cons,List.dropWhile_cons,first,if_true]
  cases wordKind (String.ofList ((c :: cs.takeWhile isIdentChar).map Char.toLower)) <;> rfl

theorem weight_exact (kind : Kind) (decoration : List Char) (start here : Position) (cs : List Char) :
    Cursor.weight kind decoration start ⟨cs,here.after decoration⟩ =
      (lexWeight kind decoration cs).placed [] start here := by
  unfold Cursor.weight lexWeight
  rw [numeral_exact]
  rcases numeral cs with ⟨number,rest⟩
  cases number with
  | nil =>
    rw [placed_grow,placed_reject]
    rfl
  | cons d ds => simp [Cursor.ended,Lexeme.placed,accept,after_append]

theorem test_exact (start here : Position) (cs : List Char) :
    Cursor.test start ⟨cs,here.step '?'⟩ = (lexTest cs).placed [] start here := by
  unfold Cursor.test lexTest
  split
  · next sign =>
    obtain ⟨rest,rfl⟩ := List.head?_eq_some_iff.mp sign
    exact weight_exact .inhibitor ['?','-'] start here rest
  · next plain =>
    split
    · exact absurd rfl plain
    · exact weight_exact .read ['?'] start here cs

theorem marking_exact (start here : Position) (cs : List Char) :
    Cursor.marking start ⟨cs,here.step '('⟩ = (lexMarking cs).placed [] start here := by
  unfold Cursor.marking lexMarking
  rw [numeral_exact]
  rcases numeral cs with ⟨number,rest⟩
  cases number with
  | nil =>
    rw [placed_grow,placed_reject]
    rfl
  | cons d ds =>
    dsimp only
    split
    · next closed =>
      obtain ⟨more,rfl⟩ := List.head?_eq_some_iff.mp closed.2
      simp [Cursor.ended,Cursor.bump,Lexeme.placed,accept,Position.after]
    · next other =>
      have open' : rest.head? ≠ some ')' := fun closed => other ⟨by simp,closed⟩
      split
      · next empty => cases empty
      · next same => cases same; exact absurd rfl open'
      · next same =>
        cases same
        rw [placed_grow,placed_reject]
        rfl

theorem label_exact (cursor : Cursor) : cursor.label =
    (lexLabel (cursor.rest.dropWhile isBlank)).placed [] (cursor.here.after (cursor.rest.takeWhile isBlank))
      (cursor.here.after (cursor.rest.takeWhile isBlank)) := by
  have stops := dropWhile_stops isBlank cursor.rest
  unfold Cursor.label
  rw [Cursor.run_exact]
  generalize cursor.here.after (cursor.rest.takeWhile isBlank) = here
  generalize cursor.rest.dropWhile isBlank = cs at stops
  cases cs with
  | nil => rfl
  | cons c rest =>
    dsimp only [Cursor.bump]
    by_cases opening : c = '{'
    · subst opening
      rw [lexLabel,placed_grow]
      exact bracedFrom_exact .label here ['{'] (here.step '{') rest
    · rw [lexLabel]
      · split
        · next ends => cases ends
        · next same => cases same; exact absurd rfl opening
        · next same =>
          cases same
          split
          · rfl
          · have first : isBlank c = false := stops c rfl
            unfold lexBareLabel
            rw [Cursor.run_exact]
            simp only [List.takeWhile_cons,List.dropWhile_cons,first,Bool.not_false,if_true]
            generalize rest.takeWhile (!isBlank ·) = word
            generalize rest.dropWhile (!isBlank ·) = behind
            cases behind <;> rfl
      · exact opening

theorem lexMark_other (c : Char) (cs : List Char)
    (other : c ∉ ['{',':','?','*','-','(','[',']','>','<']) (letter : ¬ isIdentStart c = true)
    (digit : ¬ c.isDigit = true) : lexMark (c :: cs) = reject (c :: cs) := by
  unfold lexMark
  split <;> simp_all

theorem lexMark_dash (plain : cs.head? ≠ some '>') : lexMark ('-' :: cs) = reject ('-' :: cs) := by
  cases cs with
  | nil => rfl
  | cons c rest =>
    rw [lexMark]
    · rfl
    all_goals simp_all

theorem immediate_exact {lexeme : Lexeme} (immediate : Immediate lexeme) (here : Position) :
    lexeme.placed [] (here.after lexeme.lead) (here.after lexeme.lead) = lexeme.placed [] here here := by
  unfold Immediate at immediate
  rw [immediate]
  rfl

theorem mark_exact (here : Position) (cs : List Char) : Cursor.mark ⟨cs,here⟩ =
    (lexMark cs).placed [] (here.after (lexMark cs).lead) (here.after (lexMark cs).lead) := by
  cases cs with
  | nil => rfl
  | cons c rest =>
    unfold Cursor.mark
    dsimp only [Cursor.bump]
    split
    · next ends => cases ends
    · next same =>
      cases same
      rw [lexMark,immediate_exact ((grow_immediate _ _ _).mpr (lexBraced_reads _ _).1),placed_grow]
      exact bracedFrom_exact .ident here ['{'] (here.step '{') rest
    · next same =>
      cases same
      have place : here.after (lexMark (':' :: rest)).lead = (here.step ':').after (rest.takeWhile isBlank) := by
        have immediate := (lexLabel_reads (rest.dropWhile isBlank)).1
        rw [lexMark,Lexeme.skip,immediate,List.append_nil]
        rfl
      rw [label_exact,place]
      rfl
    · next same =>
      cases same
      rw [lexMark,immediate_exact (lexTest_reads _).1]
      exact test_exact here here rest
    · next same =>
      cases same
      rw [lexMark,immediate_exact (lexWeight_reads _ _ _).1]
      exact weight_exact .star ['*'] here here rest
    · next same =>
      cases same
      split
      · next arrow =>
        obtain ⟨more,rfl⟩ := List.head?_eq_some_iff.mp arrow
        rfl
      · next plain =>
        rw [lexMark_dash plain]
        rfl
    · next same =>
      cases same
      rw [lexMark,immediate_exact (lexMarking_reads _).1]
      exact marking_exact here here rest
    · next same =>
      cases same
      rw [lexMark,immediate_exact ((grow_immediate _ _ _).mpr (lexInterval_reads _).1),placed_grow]
      exact intervalFrom_exact here ['[',' '] (here.step '[') rest
    · next same =>
      cases same
      rw [lexMark,immediate_exact ((grow_immediate _ _ _).mpr (lexInterval_reads _).1),placed_grow]
      exact intervalFrom_exact here [']',' '] (here.step ']') rest
    · next same => cases same; rfl
    · next same => cases same; rfl
    · next d behind brace colon question star dash round opening closing above below same =>
      cases same
      split
      · next letter =>
        rw [lexMark_word c rest letter,immediate_exact (lexWord_reads _).1]
        exact word_exact letter
      · next letter =>
        split
        · next digit =>
          rw [lexMark_digit c rest digit letter,numeral_exact]
          rfl
        · next digit =>
          have other : c ∉ ['{',':','?','*','-','(','[',']','>','<'] := by simp_all
          rw [lexMark_other c rest other letter digit]
          rfl

theorem next_exact (cursor : Cursor) : cursor.next =
    (lex cursor.rest).placed [] (cursor.here.after (lex cursor.rest).lead) (cursor.here.after (lex cursor.rest).lead) := by
  unfold Cursor.next lex
  rw [skip_exact,mark_exact]
  dsimp only [Lexeme.skip]
  rw [after_append]
  rfl

end TimePetri.Script
