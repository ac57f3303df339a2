import Mathlib
import TimePetri.Proofs.Script.Declarations
import TimePetri.Proofs.Script.Numerals

namespace TimePetri.Script

variable {n : Numeral} {here : Position} {c : Char} {rest : List Char} {mode : Mode} {keyword name token text : Token}
  {more : List Token}

theorem reading_note (starts : (step mode keyword).next = .ok .noteName) (named : name.kind = .ident) (more : List Token) :
    readingFrom mode (keyword :: name :: more) = (readingFrom .noteLevel more).prepend (step mode keyword).clauses := by
  have first : step mode keyword = ⟨(step mode keyword).clauses,.ok .noteName⟩ := by rw [← starts]
  have second : step .noteName name = ⟨[],.ok .noteLevel⟩ := by simp [step,expecting,named,moveTo]
  rw [reading_step first,reading_step second,prepend_nil]

theorem reading_level (level : token.kind = .int) (more : List Token) :
    readingFrom .noteLevel (token :: more) = readingFrom .noteText more := by
  have taken : step .noteLevel token = ⟨[],.ok .noteText⟩ := by simp [step,expecting,level,moveTo]
  rw [reading_step taken,prepend_nil]

theorem reading_text (named : text.kind = .ident) (more : List Token) :
    readingFrom .noteText (text :: more) = (readingFrom .top more).prepend [.note text.text] := by
  have taken : step .noteText text = ⟨[.note text.text],.ok .top⟩ := by simp [step,expecting,named,emit]
  exact reading_step taken more

theorem reading_stray (named : text.kind = .ident) (more : List Token) :
    readingFrom .top (text :: more) = ⟨[],some (.unexpected .declaration text)⟩ := by
  simp [readingFrom,step,stepTop,named,stop]

def wordToken (word : List Char) (here : Position) : Token :=
  let kind := wordKind (String.ofList (word.map Char.toLower))
  ⟨kind,String.ofList (if kind = .ident then word else word.map Char.toLower),here⟩

theorem tokens_word (start : isIdentStart c = true) (here : Position) (rest : List Char) :
    tokensFrom here (c :: rest) = wordToken (c :: rest.takeWhile isIdentChar) here ::
      tokensFrom (here.after (c :: rest.takeWhile isIdentChar)) (rest.dropWhile isIdentChar) := by
  have stops : Stops isIdentChar (rest.dropWhile isIdentChar) := fun d first => by
    have last := List.head?_dropWhile_not isIdentChar rest
    rw [first] at last
    simpa using last
  have lexed := lexWord_name c (rest.takeWhile isIdentChar) (rest.dropWhile isIdentChar) start
    (fun d member => List.mem_takeWhile_imp member) stops _ rfl
  rw [List.cons_append,List.takeWhile_append_dropWhile] at lexed
  exact tokensFrom_accept (visible_cons isIdentStart (by decide) c start rest) ((lexMark_word c rest start).trans lexed)
    (wordKind_more _) here

theorem named_start (inner : isIdentChar c = true) (found : tokensFrom here (c :: rest) = text :: more)
    (named : text.kind = .ident) : isIdentStart c = true := by
  by_contra other
  have lexed : (lexMark (c :: rest)).kind = .int ∨ (lexMark (c :: rest)).kind = .illegal := by
    cases digit : c.isDigit with
    | true => exact .inl (by rw [lexMark_digit c rest digit other]; rfl)
    | false =>
      have letter : c.isAlpha = false := by simpa [isIdentStart] using other
      have sign : c = '_' ∨ c = '\'' ∨ c = '.' := by
        simpa [isIdentChar,Char.isAlphanum,digit,letter,or_assoc] using inner
      rcases sign with rfl | rfl | rfl <;> exact .inr rfl
  have first : text.kind = (lexMark (c :: rest)).kind := by
    rw [← lex_visible (visible_cons isIdentChar (by decide) c inner rest)]
    rw [tokensFrom.eq_1 here (c :: rest)] at found
    split at found <;> cases found <;> rfl
  rw [first] at named
  rcases lexed with kind | kind <;> rw [kind] at named <;> cases named

theorem multiplier_start (multiplier : isMultiplier c = true) : isIdentStart c = true := by
  rcases multiplier_cases c multiplier with rfl | rfl | rfl | rfl | rfl | rfl <;> decide

theorem tokens_letter (multiplier : isMultiplier c = true) (stops : Stops isIdentChar rest) (here : Position) :
    tokensFrom here (c :: rest) = ⟨.ident,String.ofList [c],here⟩ :: tokensFrom (here.after [c]) rest := by
  obtain ⟨taken,dropped⟩ := takeWhile_stops isIdentChar [] rest (by simp) stops
  rw [List.nil_append] at taken dropped
  have word : wordToken [c] here = ⟨.ident,String.ofList [c],here⟩ := by
    rcases multiplier_cases c multiplier with rfl | rfl | rfl | rfl | rfl | rfl <;> rfl
  rw [tokens_word (multiplier_start multiplier),taken,dropped,word]

theorem split_letter (n : Numeral) (split : ¬ n.Whole) : ∃ c, n.suffix = some c ∧ isMultiplier c = true := by
  cases suffix : n.suffix with
  | none => exact absurd (.inl suffix) split
  | some c => exact ⟨c,rfl,n.letter c suffix⟩

theorem letter_after (suffix : n.suffix = some c) (here : Position) :
    here.after n.written = (here.after n.digits).after [c] := by
  rw [Numeral.written,suffix,after_append]
  rfl

theorem tokens_joined (multiplier : isMultiplier c = true) (joined : ¬ Stops isIdentChar rest)
    (found : tokensFrom (here.after [c]) rest = text :: more) (named : text.kind = .ident) :
    tokensFrom here (c :: rest) = wordToken (c :: text.text.toList) here :: more := by
  cases rest with
  | nil => exact absurd nofun joined
  | cons d ds =>
    have inner : isIdentChar d = true := by
      by_contra other
      exact joined fun e first => by cases first; simpa using other
    rw [tokens_word (named_start inner found named) _ ds] at found
    obtain ⟨rfl,rfl⟩ := List.cons.inj found
    have word : (wordToken (d :: ds.takeWhile isIdentChar) (here.after [c])).text.toList =
        d :: ds.takeWhile isIdentChar := by
      change wordKind _ = .ident at named
      unfold wordToken
      dsimp only
      rw [if_pos named,String.toList_ofList]
    rw [word,tokens_word (multiplier_start multiplier),List.takeWhile_cons_of_pos inner,List.dropWhile_cons_of_pos inner]
    rfl

theorem numeral_scanned (n : Numeral) (here : Position) (rest : List Char) :
    (∀ setting : Setting, (setting = .alone → n.Whole) → n.Ends (setting.after ++ rest) →
      tokensFrom here (setting.around n.written ++ rest) =
        ⟨setting.kind,n.text,here⟩ :: tokensFrom (here.after (setting.around n.written)) rest) ∧
      (¬ n.Whole → tokensFrom here (n.written ++ rest) =
        ⟨.int,String.ofList n.digits,here⟩ :: tokensFrom (here.after n.digits) (n.suffix.toList ++ rest)) ∧
      ∀ mode keyword name text more, (step mode keyword).next = .ok .noteName → name.kind = .ident → n.Ends rest →
        tokensFrom (here.after n.written) rest = text :: more → text.kind = .ident →
        (n.Whole → readingFrom mode (keyword :: name :: tokensFrom here (n.written ++ rest)) =
          (readingFrom .top more).prepend ((step mode keyword).clauses ++ [.note text.text])) ∧
        (¬ n.Whole → Stops isIdentChar rest →
          readingFrom mode (keyword :: name :: tokensFrom here (n.written ++ rest)) =
            ⟨(step mode keyword).clauses ++ [.note (String.ofList n.suffix.toList)],
              some (.unexpected .declaration text)⟩) ∧
        (¬ n.Whole → ¬ Stops isIdentChar rest →
          readingFrom mode (keyword :: name :: tokensFrom here (n.written ++ rest)) =
            (readingFrom .noteText (wordToken (n.suffix.toList ++ text.text.toList) (here.after n.digits) :: more)).prepend
              (step mode keyword).clauses) := by
  refine ⟨fun setting whole ends => tokens_numeral setting n here whole ends,fun split => tokens_split n here split rest,
    fun mode keyword name text more starts noted ends found named => ⟨fun whole => ?_,fun split stops => ?_,
      fun split joined => ?_⟩⟩
  · have scanned : tokensFrom here (n.written ++ rest) = ⟨.int,n.text,here⟩ :: text :: more := by
      have alone := tokens_numeral .alone n here (fun _ => whole) ends
      simpa [Setting.around,Setting.before,Setting.after,Setting.kind,found] using alone
    rw [reading_note starts noted,scanned,reading_level rfl,reading_text named,prepend_prepend]
  · obtain ⟨c,suffix,multiplier⟩ := split_letter n split
    rw [letter_after suffix here] at found
    rw [reading_note starts noted,tokens_split n here split,reading_level rfl,suffix,Option.toList_some,
      List.singleton_append,tokens_letter multiplier stops,found,reading_text rfl,reading_stray named,prepend_prepend,
      Reading.prepend,List.append_nil]
  · obtain ⟨c,suffix,multiplier⟩ := split_letter n split
    rw [letter_after suffix here] at found
    rw [reading_note starts noted,tokens_split n here split,reading_level rfl,suffix,Option.toList_some,
      List.singleton_append,List.singleton_append,tokens_joined multiplier joined found named]

-- After one digit the letter is the text of the note, and its own text is left over.
theorem numeral_scanned_suffixed :
    tokens "*3K b" = ⟨.star,"3K",⟨1,1⟩⟩ :: tokensFrom ⟨1,4⟩ " b".toList ∧
      readingOf "nt a 33K b" = ⟨[.note "b"],none⟩ ∧
      readingOf "nt a 3K b" = ⟨[.note "K"],some (.unexpected .declaration ⟨.ident,"b",⟨1,9⟩⟩)⟩ ∧
      readingOf "nt a 3Kb" = ⟨[.note "Kb"],none⟩ := by
  have letter : ∀ c ∈ some 'K', isMultiplier c = true := by rintro c ⟨⟩; decide
  let one : Numeral := ⟨['3'],some 'K',by decide,by simp,letter⟩
  let two : Numeral := ⟨['3','3'],some 'K',by decide,by simp,letter⟩
  have suffixed (n : Numeral) (rest : List Char) (suffix : n.suffix = some 'K') : n.Ends rest := by
    intro none
    rw [none] at suffix
    cases suffix
  have split : ¬ one.Whole := by simp [Numeral.Whole,one]
  have whole : two.Whole := .inr (Nat.le_refl 2)
  have apart : Stops isIdentChar " b".toList := by rintro c ⟨⟩; decide
  have joined : ¬ Stops isIdentChar "b".toList := fun stops => by cases stops 'b' rfl
  have starred := (numeral_scanned one .start " b".toList).1 (.weight .plain) nofun (suffixed _ _ rfl)
  have reads (n : Numeral) (rest : List Char) :=
    (numeral_scanned n ⟨1,6⟩ rest).2.2 .top ⟨.note,"nt",⟨1,1⟩⟩ ⟨.ident,"a",⟨1,4⟩⟩
  have first := (reads two " b".toList ⟨.ident,"b",⟨1,10⟩⟩ [⟨.eof,"EOF",⟨1,11⟩⟩] rfl rfl (suffixed _ _ rfl) (by cbv) rfl).1 whole
  have second := (reads one " b".toList ⟨.ident,"b",⟨1,9⟩⟩ [⟨.eof,"EOF",⟨1,10⟩⟩] rfl rfl (suffixed _ _ rfl) (by cbv) rfl).2.1
    split apart
  have third := (reads one "b".toList ⟨.ident,"b",⟨1,8⟩⟩ [⟨.eof,"EOF",⟨1,9⟩⟩] rfl rfl (suffixed _ _ rfl) (by cbv) rfl).2.2
    split joined
  have headed : tokens "nt a 33K b" = ⟨.note,"nt",⟨1,1⟩⟩ :: ⟨.ident,"a",⟨1,4⟩⟩ :: tokensFrom ⟨1,6⟩ "33K b".toList := by cbv
  have short : tokens "nt a 3K b" = ⟨.note,"nt",⟨1,1⟩⟩ :: ⟨.ident,"a",⟨1,4⟩⟩ :: tokensFrom ⟨1,6⟩ "3K b".toList := by cbv
  have closed : tokens "nt a 3Kb" = ⟨.note,"nt",⟨1,1⟩⟩ :: ⟨.ident,"a",⟨1,4⟩⟩ :: tokensFrom ⟨1,6⟩ "3Kb".toList := by cbv
  refine ⟨starred,?_,?_,?_⟩
  · rw [readingOf,headed]
    exact first
  · rw [readingOf,short]
    exact second
  · rw [readingOf,closed]
    exact third

end TimePetri.Script
