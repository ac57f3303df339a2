import TimePetri.Proofs.Script.Glyphs
import TimePetri.Proofs.Script.Spells

namespace TimePetri.Script

-- What is read of a line does not depend on what comes behind the line.
def Settled (reading : List Char → Lexeme) : Prop :=
  ∃ lexeme : Lexeme, ∀ more, (reading more).seen = (lexeme.kind,lexeme.shown,lexeme.rest ++ '\n' :: more)

variable {reading : List Char → Lexeme} {kind : Kind} {cs : List Char}

theorem settled_grow (shown body : List Char) (settled : Settled reading) :
    Settled fun more => (reading more).grow shown body := by
  obtain ⟨lexeme,same⟩ := settled
  refine ⟨lexeme.grow shown body,fun more => ?_⟩
  obtain ⟨sameKind,sameShown,sameRest⟩ : (reading more).kind = lexeme.kind ∧ (reading more).shown = lexeme.shown ∧
      (reading more).rest = lexeme.rest ++ '\n' :: more := by simpa [Lexeme.seen] using same more
  simp [Lexeme.seen,Lexeme.grow,sameKind,sameShown,sameRest]

theorem takeWhile_line (wanted : Char → Bool) (never : wanted '\n' = false) (cs more : List Char) :
    (cs ++ '\n' :: more).takeWhile wanted = cs.takeWhile wanted ∧
      (cs ++ '\n' :: more).dropWhile wanted = cs.dropWhile wanted ++ '\n' :: more := by
  induction cs with
  | nil => simp [never]
  | cons c cs ih => by_cases here : wanted c = true <;> simp [here,ih]

theorem lexWord_line (cs : List Char) : Settled fun more => lexWord (cs ++ '\n' :: more) := by
  refine ⟨lexWord cs,fun more => ?_⟩
  obtain ⟨taken,dropped⟩ := takeWhile_line isIdentChar (by decide) cs more
  unfold lexWord
  dsimp only
  rw [taken,dropped]
  split <;> rfl

theorem numeral_line (cs more : List Char) :
    numeral (cs ++ '\n' :: more) = ((numeral cs).1,(numeral cs).2 ++ '\n' :: more) := by
  obtain ⟨taken,dropped⟩ := takeWhile_line Char.isDigit (by decide) cs more
  unfold numeral
  rw [taken,dropped]
  cases cs.takeWhile Char.isDigit with
  | nil => rfl
  | cons digit digits =>
    cases cs.dropWhile Char.isDigit with
    | nil => rfl
    | cons c rest => by_cases multiplier : isMultiplier c = true <;> simp [multiplier]

theorem lexInt_line (c : Char) (cs : List Char) : Settled fun more => lexInt c (cs ++ '\n' :: more) := by
  refine ⟨lexInt c cs,fun more => ?_⟩
  dsimp only [lexInt]
  rw [numeral_line]
  rfl

theorem lexWeight_line (kind : Kind) (decoration cs : List Char)
    (legal : (lexWeight kind decoration (cs ++ ['\n'])).kind ≠ .illegal) :
    Settled fun more => lexWeight kind decoration (cs ++ '\n' :: more) := by
  refine ⟨lexWeight kind decoration cs,fun more => ?_⟩
  dsimp only [lexWeight] at legal ⊢
  rw [numeral_line] at legal ⊢
  generalize numeral cs = paragraphs at legal ⊢
  obtain ⟨number,rest⟩ := paragraphs
  cases number with
  | nil => exact absurd rfl legal
  | cons digit digits => rfl

theorem lexTest_line (cs : List Char) (legal : (lexTest (cs ++ ['\n'])).kind ≠ .illegal) :
    Settled fun more => lexTest (cs ++ '\n' :: more) := by
  fun_cases lexTest cs with
  | case1 cs => exact lexWeight_line .inhibitor ['?','-'] cs legal
  | case2 cs plain =>
    have same (more : List Char) : lexTest (cs ++ '\n' :: more) = lexWeight .read ['?'] (cs ++ '\n' :: more) := by
      cases cs with
      | nil => rfl
      | cons c cs => exact lexTest.eq_2 _ fun rest heads => plain _ (by cases heads; rfl)
    simp only [same] at legal ⊢
    exact lexWeight_line .read ['?'] cs legal

theorem lexMarking_line (cs : List Char) (legal : (lexMarking (cs ++ ['\n'])).kind ≠ .illegal) :
    Settled fun more => lexMarking (cs ++ '\n' :: more) := by
  refine ⟨lexMarking cs,fun more => ?_⟩
  dsimp only [lexMarking] at legal ⊢
  rw [numeral_line] at legal ⊢
  generalize numeral cs = paragraphs at legal ⊢
  obtain ⟨number,rest⟩ := paragraphs
  cases number with
  | nil => exact absurd rfl legal
  | cons digit digits =>
    cases rest with
    | nil => exact absurd rfl legal
    | cons c rest =>
      by_cases closing : c = ')'
      · subst closing
        rfl
      · refine absurd ?_ legal
        simp [closing,reject,Lexeme.grow]

theorem lexBraced_line (kind : Kind) (cs : List Char) (legal : (lexBraced kind (cs ++ ['\n'])).kind ≠ .illegal) :
    Settled fun more => lexBraced kind (cs ++ '\n' :: more) := by
  fun_induction lexBraced kind cs with
  | case1 => exact absurd rfl legal
  | case2 cs => exact ⟨accept kind ['}'] ['}'] cs,fun _ => rfl⟩
  | case3 c cs marked ih =>
    simp only [List.cons_append,lexBraced,marked,if_true] at legal ⊢
    exact settled_grow _ _ (ih legal)
  | case4 c cs other => simp [lexBraced,other,accept] at legal
  | case5 c cs closing escape broken =>
    refine absurd ?_ legal
    rw [List.cons_append,lexBraced,if_pos broken]
    · rfl
    · exact closing
    · rintro _ _ rfl _
      cases broken
  | case6 cs closing escape _ =>
    cases cs with
    | nil => exact absurd rfl legal
    | cons d cs => exact (escape d cs rfl rfl).elim
  | case7 c cs closing escape broken backslash ih =>
    have same (more : List Char) :
        lexBraced kind (c :: cs ++ '\n' :: more) = (lexBraced kind (cs ++ '\n' :: more)).grow [c] [c] := by
      rw [List.cons_append,lexBraced,if_neg broken,if_neg backslash]
      · exact closing
      · exact fun _ _ same _ => backslash same
    simp only [same] at legal ⊢
    exact settled_grow _ _ (ih legal)

theorem lexInterval_line (cs : List Char) (legal : (lexInterval (cs ++ ['\n'])).kind ≠ .illegal) :
    Settled fun more => lexInterval (cs ++ '\n' :: more) := by
  fun_induction lexInterval cs with
  | case1 => exact absurd rfl legal
  | case2 c cs bracket =>
    refine ⟨accept .interval [' ',c] [c] cs,fun more => ?_⟩
    simp only [List.cons_append,lexInterval,bracket,if_true]
    rfl
  | case3 cs bracket ih =>
    simp only [List.cons_append,lexInterval,bracket,if_true] at legal ⊢
    exact settled_grow _ _ (ih legal)
  | case4 c cs bracket comma part ih =>
    simp only [List.cons_append,lexInterval,bracket,comma,part,if_true,if_false] at legal ⊢
    exact settled_grow _ _ (ih legal)
  | case5 c cs bracket comma part blank ih =>
    simp only [List.cons_append,lexInterval,bracket,comma,part,blank,if_true,if_false] at legal ⊢
    exact settled_grow _ _ (ih legal)
  | case6 c cs bracket comma part blank =>
    refine absurd ?_ legal
    simp only [List.cons_append,lexInterval,bracket,comma,part,blank,if_false]
    rfl

theorem lexBareLabel_line (cs : List Char) : Settled fun more => lexBareLabel (cs ++ '\n' :: more) := by
  refine ⟨accept .label (cs.takeWhile (!isBlank ·)) [] (cs.dropWhile (!isBlank ·)),fun more => ?_⟩
  obtain ⟨taken,dropped⟩ := takeWhile_line (!isBlank ·) (by decide) cs more
  dsimp only [lexBareLabel]
  rw [taken,dropped]
  cases cs.dropWhile (!isBlank ·) <;> rfl

theorem lexLabel_line (cs : List Char) (legal : (lexLabel (cs ++ ['\n'])).kind ≠ .illegal) :
    Settled fun more => lexLabel (cs ++ '\n' :: more) := by
  fun_cases lexLabel cs with
  | case1 => exact lexBareLabel_line []
  | case2 cs => exact settled_grow _ _ (lexBraced_line .label cs legal)
  | case3 c cs opening other =>
    refine absurd ?_ legal
    rw [List.cons_append,lexLabel,if_pos other]
    · rfl
    · exact opening
  | case4 c cs opening other =>
    have same (more : List Char) : lexLabel (c :: cs ++ '\n' :: more) = lexBareLabel (c :: cs ++ '\n' :: more) := by
      rw [List.cons_append,lexLabel,if_neg other]
      exact opening
    simp only [same]
    exact lexBareLabel_line (c :: cs)

theorem lexColon_line (cs : List Char) (legal : (lexLabel ((cs ++ ['\n']).dropWhile isBlank)).kind ≠ .illegal) :
    Settled fun more => lexLabel ((cs ++ '\n' :: more).dropWhile isBlank) := by
  induction cs with
  | nil => exact absurd rfl legal
  | cons c cs ih =>
    by_cases blank : isBlank c = true
    · simp only [List.cons_append,List.dropWhile_cons_of_pos blank] at legal ⊢
      exact ih legal
    · simp only [List.cons_append,List.dropWhile_cons_of_neg blank] at legal ⊢
      exact lexLabel_line (c :: cs) legal

theorem lexMark_line (cs : List Char) (legal : (lexMark (cs ++ ['\n'])).kind ≠ .illegal) :
    Settled fun more => lexMark (cs ++ '\n' :: more) := by
  fun_cases lexMark cs with
  | case1 => exact absurd rfl legal
  | case2 cs => exact settled_grow _ _ (lexBraced_line .ident cs legal)
  | case3 cs => exact lexColon_line cs legal
  | case4 cs => exact lexTest_line cs legal
  | case5 cs => exact lexWeight_line .star ['*'] cs legal
  | case6 cs => exact ⟨accept .arrow ['-','>'] [] cs,fun _ => rfl⟩
  | case7 cs => exact lexMarking_line cs legal
  | case8 cs => exact settled_grow _ _ (lexInterval_line cs legal)
  | case9 cs => exact settled_grow _ _ (lexInterval_line cs legal)
  | case10 cs => exact ⟨accept .gt ['>'] [] cs,fun _ => rfl⟩
  | case11 cs => exact ⟨accept .lt ['<'] [] cs,fun _ => rfl⟩
  | case12 c cs _ _ _ _ _ _ _ _ _ _ letter =>
    simp only [List.cons_append,lexMark_word c _ letter]
    exact lexWord_line (c :: cs)
  | case13 c cs _ _ _ _ _ _ _ _ _ _ letter digit =>
    simp only [List.cons_append,lexMark_digit c _ digit letter]
    exact lexInt_line c cs
  | case14 c cs brace colon question star arrow opening left right above below letter digit =>
    have apart : ∀ rest, c = '-' → cs ++ ['\n'] = '>' :: rest → False := by
      rintro rest rfl heads
      cases cs with
      | nil => cases heads
      | cons d cs => exact arrow cs rfl (by cases heads; rfl)
    refine absurd ?_ legal
    rw [List.cons_append,lexMark.eq_12 c _ brace colon question star apart opening left right above below,
      if_neg letter,if_neg digit]
    rfl

theorem trivia_step (inComment : Bool) (c : Char) :
    (∃ later, ∀ rest, (trivia inComment (c :: rest)).2 = (trivia later rest).2) ∨
      ∀ rest, (trivia inComment (c :: rest)).2 = c :: rest := by
  simp only [trivia]
  split
  · exact .inl ⟨true,fun _ => rfl⟩
  · split
    · exact .inl ⟨false,fun _ => rfl⟩
    · split
      · exact .inl ⟨true,fun _ => rfl⟩
      · exact .inr fun _ => rfl

theorem trivia_line (inComment : Bool) (cs : List Char) :
    (∀ more, (trivia inComment (cs ++ '\n' :: more)).2 = (trivia false more).2) ∨
      ∃ left, ∀ more, (trivia inComment (cs ++ '\n' :: more)).2 = left ++ '\n' :: more := by
  induction cs generalizing inComment with
  | nil => exact .inl fun more => by simp [trivia,trivia.skipped,isBlank]
  | cons c cs ih =>
    rcases trivia_step inComment c with ⟨later,skipped⟩ | visible
    · rcases ih later with whole | ⟨left,within⟩
      · exact .inl fun more => (skipped _).trans (whole more)
      · exact .inr ⟨left,fun more => (skipped _).trans (within more)⟩
    · exact .inr ⟨c :: cs,fun more => visible _⟩

theorem lexMark_eof (ends : (lexMark cs).kind = .eof) : cs = [] := by
  have other {lexeme : Lexeme} {kind : Kind} (same : lexeme.kind = kind ∨ lexeme.kind = .illegal)
      (plain : kind ≠ .eof) : lexeme.kind ≠ .eof := by
    rcases same with same | same
    · rwa [same]
    · rw [same]
      exact nofun
  unfold lexMark at ends
  split at ends
  · rfl
  · exact absurd ends (other (lexBraced_kind .ident _) nofun)
  · exact absurd ends (other (lexLabel_kind _) nofun)
  · next cs =>
    rcases lexTest_kind cs with kind | kind
    · exact absurd ends (other (.inl kind) nofun)
    · exact absurd ends (other kind nofun)
  · next cs => exact absurd ends (other (lexWeight_kind .star ['*'] cs) nofun)
  · cases ends
  · next cs => exact absurd ends (other (lexMarking_kind cs) nofun)
  · next cs => exact absurd ends (other (lexInterval_kind cs) nofun)
  · next cs => exact absurd ends (other (lexInterval_kind cs) nofun)
  · cases ends
  · cases ends
  · split at ends
    · unfold lexWord at ends
      dsimp only at ends
      split at ends
      · cases ends
      · exact absurd (.inl ends) (wordKind_more _)
    · split at ends
      · cases ends
      · cases ends

-- A text in which no token is illegal. Its last token is then its end.
def Legal (cs : List Char) : Prop := ∀ token ∈ glyphs cs, token.kind ≠ .illegal

theorem glyphs_some (cs : List Char) : glyphs cs ≠ [] := by
  obtain ⟨front,last,same,_⟩ := tokensFrom_shape .start cs
  simp [glyphs,same]

theorem glyphs_joined (cs : List Char) (legal : Legal (cs ++ ['\n'])) (more : List Char) :
    glyphs (cs ++ '\n' :: more) = (glyphs (cs ++ ['\n'])).dropLast ++ glyphs more := by
  -- By the first token of the line, if it has one: the token does not see behind the line,
  -- and what follows it is a shorter line.
  induction length : cs.length using Nat.strong_induction_on generalizing cs with
  | h n ih =>
    rcases trivia_line false cs with whole | ⟨left,within⟩
    · have same (more : List Char) : glyphs (cs ++ '\n' :: more) = glyphs more :=
        glyphs_same (by rw [lex_seen,lex_seen,whole])
      rw [same,same,glyphs_end]
      rfl
    · have seen (more : List Char) : (lex (cs ++ '\n' :: more)).seen = (lexMark (left ++ '\n' :: more)).seen := by
        rw [lex_seen,within]
      have first : (lexMark (left ++ ['\n'])).kind ≠ .illegal := by
        intro illegal
        refine legal (glyph .illegal (lexMark (left ++ ['\n'])).shown) ?_ rfl
        rw [glyphs_last (seen []) (.inr illegal),illegal]
        exact List.mem_singleton.mpr rfl
      have visible : (lexMark (left ++ ['\n'])).kind ≠ .eof := fun ends => by simpa using lexMark_eof ends
      obtain ⟨lexeme,settled⟩ := lexMark_line left first
      obtain ⟨kind,rest⟩ : (lexMark (left ++ ['\n'])).kind = lexeme.kind ∧
          (lex (cs ++ ['\n'])).rest = lexeme.rest ++ ['\n'] :=
        ⟨congrArg Prod.fst (settled []),congrArg (fun seen => seen.2.2) ((seen []).trans (settled []))⟩
      have taken (more : List Char) : glyphs (cs ++ '\n' :: more) =
          glyph lexeme.kind lexeme.shown :: glyphs (lexeme.rest ++ '\n' :: more) :=
        glyphs_cons ((seen more).trans (settled more)) (kind ▸ ⟨visible,first⟩)
      have shorter : lexeme.rest.length < n := by
        have bound := lex_shorter (cs ++ ['\n']) (by rwa [show (lex _).kind = _ from congrArg Prod.fst (seen [])])
        rw [rest,List.length_append,List.length_append] at bound
        omega
      have later : Legal (lexeme.rest ++ ['\n']) := by
        intro token member
        refine legal token ?_
        rw [taken]
        exact List.mem_cons_of_mem _ member
      rw [taken,taken,ih _ shorter _ later rfl,List.dropLast_cons_of_ne_nil (glyphs_some _),List.cons_append]

-- A declaration on lines of its own, but for the end of the last of them.
structure Paragraph where
  declaration : Declaration
  lines : String
  spells : Spells [declaration] (lines ++ "\n")

def Paragraph.join (paragraphs : List Paragraph) : String :=
  String.join (paragraphs.map fun paragraph => paragraph.lines ++ "\n")

theorem spells_legal {declarations : List Declaration} {text : String} (spells : Spells declarations text) :
    Legal text.toList := by
  obtain ⟨front,last,same,_,legal,_⟩ := tokensFrom_shape .start text.toList
  have whole : front.map Token.unplaced ++ [last.unplaced] =
      declarations.flatMap Declaration.tokens ++ [sign .eof "EOF"] := by
    rw [← spells,tokens,same,List.map_append]
    rfl
  have ends : last.unplaced = sign .eof "EOF" := (List.append_inj' whole rfl).2 |> List.singleton_inj.mp
  intro token member
  rw [glyphs,same] at member
  obtain ⟨placed,inText,rfl⟩ := List.mem_map.mp member
  rcases List.mem_append.mp inText with inFront | isLast
  · exact fun illegal => legal placed inFront (.inr illegal)
  · cases List.mem_singleton.mp isLast
    rw [ends]
    intro illegal
    cases illegal

theorem join_spells (paragraphs : List Paragraph) :
    Spells (paragraphs.map Paragraph.declaration) (Paragraph.join paragraphs) := by
  induction paragraphs with
  | nil => exact glyphs_end
  | cons paragraph rest ih =>
    have here : glyphs (paragraph.lines ++ "\n").toList =
        [paragraph.declaration].flatMap Declaration.tokens ++ [sign .eof "EOF"] := paragraph.spells
    have later : glyphs (Paragraph.join rest).toList =
        (rest.map Paragraph.declaration).flatMap Declaration.tokens ++ [sign .eof "EOF"] := ih
    have legal : Legal (paragraph.lines ++ "\n").toList := spells_legal paragraph.spells
    rw [String.toList_append] at here legal
    have text : (Paragraph.join (paragraph :: rest)).toList =
        paragraph.lines.toList ++ '\n' :: (Paragraph.join rest).toList := by simp [Paragraph.join]
    change glyphs (Paragraph.join (paragraph :: rest)).toList = _
    rw [text,glyphs_joined _ legal]
    change (glyphs (paragraph.lines.toList ++ "\n".toList)).dropLast ++ _ = _
    rw [here,later]
    simp

end TimePetri.Script
