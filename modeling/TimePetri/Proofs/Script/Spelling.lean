import Mathlib.Data.List.TakeWhile
import TimePetri.Script.Tokens

namespace TimePetri.Script

-- A name or label in braces, behind its opening brace. What would end it too early
-- stands behind a backslash.
inductive BracedTail : List Char → Prop where
  | close : BracedTail ['}']
  | escape (c : Char) (marked : c = '{' ∨ c = '}' ∨ c = '\\') (tail : BracedTail cs) : BracedTail ('\\' :: c :: cs)
  | plain (c : Char) (ordinary : c ≠ '\n' ∧ c ≠ '\r' ∧ c ≠ '{' ∧ c ≠ '}' ∧ c ≠ '\\') (tail : BracedTail cs) :
    BracedTail (c :: cs)

inductive IsName : List Char → Prop where
  | bare (c : Char) (cs : List Char) (start : isIdentStart c = true) (word : ∀ d ∈ cs, isIdentChar d = true)
    (free : wordKind (String.ofList ((c :: cs).map Char.toLower)) = .ident) : IsName (c :: cs)
  | braced (tail : BracedTail cs) : IsName ('{' :: cs)

inductive IsLabel : List Char → Prop where
  | bare (c : Char) (cs : List Char) (first : c ≠ '{' ∧ c ≠ '}' ∧ c ≠ '\\') (word : ∀ d ∈ c :: cs, isBlank d = false) :
    IsLabel (c :: cs)
  | braced (tail : BracedTail cs) : IsLabel ('{' :: cs)

def Stops (wanted : Char → Bool) (rest : List Char) : Prop := ∀ c ∈ rest.head?, wanted c = false

theorem dropWhile_stops (wanted : Char → Bool) (cs : List Char) : Stops wanted (cs.dropWhile wanted) := by
  intro c first
  have last := List.head?_dropWhile_not wanted cs
  rw [first] at last
  simpa using last

theorem stops_head {wanted : Char → Bool} {rest other : List Char} (same : rest.head? = other.head?)
    (stops : Stops wanted rest) : Stops wanted other := by
  unfold Stops at stops ⊢
  rwa [← same]

theorem takeWhile_stops (wanted : Char → Bool) (word rest : List Char) (all : ∀ c ∈ word, wanted c = true)
    (stops : Stops wanted rest) : (word ++ rest).takeWhile wanted = word ∧ (word ++ rest).dropWhile wanted = rest := by
  induction word with
  | nil =>
    cases rest with
    | nil => exact ⟨rfl,rfl⟩
    | cons c cs => simp [stops c rfl]
  | cons c cs ih =>
    obtain ⟨taken,dropped⟩ := ih fun d member => all d (List.mem_cons_of_mem _ member)
    simp [all c (by simp),taken,dropped]

theorem lexBraced_tail (kind : Kind) (tail : BracedTail cs) (rest : List Char) :
    lexBraced kind (cs ++ rest) = accept kind cs cs rest := by
  induction tail with
  | close => rfl
  | @escape cs c marked _ ih =>
    rw [List.cons_append,List.cons_append,lexBraced,if_pos (by simpa [or_assoc] using marked),ih]
    rfl
  | @plain cs c ordinary _ ih =>
    obtain ⟨line,return',opening,closing,backslash⟩ := ordinary
    rw [List.cons_append,lexBraced,if_neg (by simp [line,return',opening]),if_neg backslash,ih]
    · rfl
    · exact closing
    · intro other others same _
      exact backslash same

theorem lexBraced_closed (kind : Kind) (cs : List Char) (legal : (lexBraced kind cs).kind ≠ .illegal) :
    ∃ tail rest, BracedTail tail ∧ lexBraced kind cs = accept kind tail tail rest := by
  fun_induction lexBraced kind cs with
  | case1 => exact absurd rfl legal
  | case2 cs => exact ⟨['}'],cs,.close,rfl⟩
  | case3 c cs marked ih =>
    obtain ⟨tail,rest,closed,lexed⟩ := ih legal
    exact ⟨'\\' :: c :: tail,rest,.escape c (by simpa [or_assoc] using marked) closed,by rw [lexed]; rfl⟩
  | case4 => exact absurd rfl legal
  | case5 => exact absurd rfl legal
  | case6 => exact absurd rfl legal
  | case7 c cs closing _ broken backslash ih =>
    obtain ⟨tail,rest,closed,lexed⟩ := ih legal
    have whole : c ≠ '\n' ∧ c ≠ '\r' ∧ c ≠ '{' := by simpa [and_assoc] using broken
    exact ⟨c :: tail,rest,.plain c ⟨whole.1,whole.2.1,whole.2.2,closing,backslash⟩ closed,by rw [lexed]; rfl⟩

theorem lexBraced_legal (kind : Kind) (cs : List Char) (legal : (lexBraced kind cs).kind ≠ .illegal) :
    (lexBraced kind cs).kind = kind ∧ BracedTail (lexBraced kind cs).shown := by
  obtain ⟨tail,rest,closed,lexed⟩ := lexBraced_closed kind cs legal
  rw [lexed]
  exact ⟨rfl,closed⟩

theorem lexWord_name (c : Char) (cs rest : List Char) (start : isIdentStart c = true)
    (word : ∀ d ∈ cs, isIdentChar d = true) (stops : Stops isIdentChar rest) (kind : Kind)
    (free : wordKind (String.ofList ((c :: cs).map Char.toLower)) = kind) :
    lexWord (c :: cs ++ rest) =
      accept kind (if kind = .ident then c :: cs else (c :: cs).map Char.toLower) (c :: cs) rest := by
  have all : ∀ d ∈ c :: cs, isIdentChar d = true := by
    intro d member
    rcases List.mem_cons.mp member with rfl | later
    · exact isIdentStart_char _ start
    · exact word d later
  obtain ⟨taken,dropped⟩ := takeWhile_stops isIdentChar (c :: cs) rest all stops
  unfold lexWord
  dsimp only
  rw [taken,dropped,free]
  cases kind <;> rfl

theorem lexMark_word (c : Char) (cs : List Char) (start : isIdentStart c = true) :
    lexMark (c :: cs) = lexWord (c :: cs) := by
  unfold lexMark
  split <;> simp_all [isIdentStart]

theorem lexMark_digit (c : Char) (cs : List Char) (digit : c.isDigit = true) (letter : ¬ isIdentStart c = true) :
    lexMark (c :: cs) = lexInt c cs := by
  unfold lexMark
  split <;> simp_all

-- In braces a name or a label has its end, else what follows has to end it.
def NameEnds (name rest : List Char) : Prop := name.head? ≠ some '{' → Stops isIdentChar rest

def LabelEnds (label rest : List Char) : Prop := label.head? ≠ some '{' → ∃ b more, rest = b :: more ∧ isBlank b = true

theorem lexMark_name (name rest : List Char) (isName : IsName name) (ends : NameEnds name rest) :
    lexMark (name ++ rest) = accept .ident name name rest := by
  cases isName with
  | bare c cs start word free =>
    have stops := ends fun opening => by cases opening; cases start
    rw [List.cons_append,lexMark_word c _ start]
    exact lexWord_name c cs rest start word stops .ident free
  | braced tail =>
    rw [List.cons_append,lexMark,lexBraced_tail _ tail]
    rfl

-- A name is read up to its end, so what stands behind it cannot be part of it.
theorem name_ends {name other rest more : List Char} (isName : IsName name) (otherName : IsName other)
    (stops : Stops isIdentChar rest) (halts : Stops isIdentChar more) (same : name ++ rest = other ++ more) :
    name = other ∧ rest = more := by
  have lexed := (lexMark_name _ _ isName fun _ => stops).symm.trans
    ((congrArg lexMark same).trans (lexMark_name _ _ otherName fun _ => halts))
  simpa [accept] using lexed

theorem lexBareLabel_label (c : Char) (cs rest : List Char) (word : ∀ d ∈ c :: cs, isBlank d = false)
    (blank : ∃ b more, rest = b :: more ∧ isBlank b = true) :
    lexBareLabel (c :: cs ++ rest) = accept .label (c :: cs) (c :: cs) rest := by
  obtain ⟨b,more,rfl,isBlank⟩ := blank
  obtain ⟨taken,dropped⟩ := takeWhile_stops (!TimePetri.Script.isBlank ·) (c :: cs) (b :: more)
    (fun d member => by simp [word d member]) (fun d here => by cases here; simp [isBlank])
  unfold lexBareLabel
  dsimp only
  rw [taken,dropped]

theorem lexLabel_label (label rest : List Char) (isLabel : IsLabel label) (ends : LabelEnds label rest) :
    lexLabel (label ++ rest) = accept .label label label rest := by
  cases isLabel with
  | bare c cs first word =>
    have blank := ends fun opening => first.1 (Option.some.inj opening)
    rw [List.cons_append,lexLabel,if_neg (by simp [first.2])]
    · exact lexBareLabel_label c cs rest word blank
    · exact first.1
  | braced tail =>
    rw [List.cons_append,lexLabel,lexBraced_tail _ tail]
    rfl

theorem lexWord_spelled (c : Char) (cs : List Char) (start : isIdentStart c = true)
    (ident : (lexWord (c :: cs)).kind = .ident) : IsName (lexWord (c :: cs)).shown := by
  have first : (c :: cs).takeWhile isIdentChar = c :: cs.takeWhile isIdentChar := by
    simp [isIdentStart_char c start]
  unfold lexWord at ident ⊢
  dsimp only at ident ⊢
  rw [first] at ident ⊢
  cases kind : wordKind (String.ofList ((c :: cs.takeWhile isIdentChar).map Char.toLower)) with
  | ident => exact .bare c _ start (fun d member => List.mem_takeWhile_imp member) kind
  | _ => rw [kind] at ident; cases ident

theorem wordKind_label (word : String) : wordKind word ≠ .label := by
  unfold wordKind keywords
  simp only [List.lookup_cons,List.lookup_nil]
  repeat' split
  all_goals simp

theorem lexWord_kind (cs : List Char) : (lexWord cs).kind ≠ .label := by
  unfold lexWord
  dsimp only
  split
  · simp [accept]
  · exact wordKind_label _

theorem lexBareLabel_blank (visible : isBlank c = false) (first : c ≠ '{' ∧ c ≠ '}' ∧ c ≠ '\\')
    (legal : (lexBareLabel (c :: cs)).kind ≠ .illegal) : ∃ label rest, IsLabel label ∧ LabelEnds label rest ∧
      lexBareLabel (c :: cs) = accept .label label label rest := by
  have word : (c :: cs).takeWhile (!isBlank ·) = c :: cs.takeWhile (!isBlank ·) := by simp [visible]
  have stops := dropWhile_stops (!isBlank ·) (c :: cs)
  have dark : ∀ d ∈ c :: cs.takeWhile (!isBlank ·), isBlank d = false := fun d member => by
    rw [← word] at member
    simpa using List.mem_takeWhile_imp member
  unfold lexBareLabel at legal ⊢
  dsimp only at legal ⊢
  rw [word] at legal ⊢
  cases left : (c :: cs).dropWhile (!isBlank ·) with
  | nil =>
    rw [left] at legal
    exact absurd rfl legal
  | cons b more =>
    rw [left] at stops
    have blank : isBlank b = true := by simpa using stops b rfl
    exact ⟨_,_,.bare c _ first dark,fun _ => ⟨b,more,rfl,blank⟩,rfl⟩

theorem lexLabel_closed (visible : Stops isBlank cs) (legal : (lexLabel cs).kind ≠ .illegal) :
    ∃ label rest, IsLabel label ∧ LabelEnds label rest ∧ lexLabel cs = accept .label label label rest := by
  unfold lexLabel at legal ⊢
  split at legal
  · exact absurd rfl legal
  · next cs =>
    obtain ⟨tail,rest,closed,lexed⟩ := lexBraced_closed .label cs legal
    exact ⟨'{' :: tail,rest,.braced closed,fun bare => absurd rfl bare,by rw [lexed]; rfl⟩
  · next c cs opening =>
    split at legal
    · exact absurd rfl legal
    · next others =>
      rw [if_neg others]
      have rest : c ≠ '}' ∧ c ≠ '\\' := by simpa using others
      exact lexBareLabel_blank (visible c rfl) ⟨opening,rest⟩ legal

theorem lexLabel_spelled (cs : List Char) (legal : (lexLabel (cs.dropWhile isBlank)).kind ≠ .illegal) :
    (lexLabel (cs.dropWhile isBlank)).kind = .label ∧ IsLabel (lexLabel (cs.dropWhile isBlank)).shown := by
  obtain ⟨label,rest,isLabel,_,lexed⟩ := lexLabel_closed (dropWhile_stops isBlank cs) legal
  rw [lexed]
  exact ⟨rfl,isLabel⟩

theorem lexWeight_kind (kind : Kind) (decoration cs : List Char) :
    (lexWeight kind decoration cs).kind = kind ∨ (lexWeight kind decoration cs).kind = .illegal := by
  unfold lexWeight
  split
  · exact .inr rfl
  · exact .inl rfl

theorem lexTest_kind (cs : List Char) :
    (lexTest cs).kind = .inhibitor ∨ (lexTest cs).kind = .read ∨ (lexTest cs).kind = .illegal := by
  unfold lexTest
  split
  · rcases lexWeight_kind .inhibitor ['?','-'] ‹_› with kind | kind <;> simp [kind]
  · rcases lexWeight_kind .read ['?'] cs with kind | kind <;> simp [kind]

theorem lexMarking_kind (cs : List Char) : (lexMarking cs).kind = .marking ∨ (lexMarking cs).kind = .illegal := by
  unfold lexMarking
  split
  · exact .inr rfl
  · exact .inl rfl
  · exact .inr rfl

theorem lexInterval_kind (cs : List Char) : (lexInterval cs).kind = .interval ∨ (lexInterval cs).kind = .illegal := by
  fun_induction lexInterval cs with
  | case1 => exact .inr rfl
  | case2 => exact .inl rfl
  | case3 _ _ ih => exact ih
  | case4 _ _ _ _ _ ih => exact ih
  | case5 _ _ _ _ _ _ ih => exact ih
  | case6 => exact .inr rfl

structure Token.Spelled (token : Token) : Prop where
  name : token.kind = .ident → IsName token.text.toList
  label : token.kind = .label → IsLabel token.text.toList

theorem other_spelled {lexeme : Lexeme} (kind : Kind) (same : lexeme.kind = kind)
    (other : kind ≠ .ident ∧ kind ≠ .label) :
    (lexeme.kind = .ident → IsName lexeme.shown) ∧ (lexeme.kind = .label → IsLabel lexeme.shown) := by
  rw [same]
  exact ⟨fun ident => absurd ident other.1,fun label => absurd label other.2⟩

theorem lexMark_spelled (cs : List Char) :
    ((lexMark cs).kind = .ident → IsName (lexMark cs).shown) ∧ ((lexMark cs).kind = .label → IsLabel (lexMark cs).shown) := by
  unfold lexMark
  split
  · exact other_spelled .eof rfl (by decide)
  · refine ⟨fun ident => ?_,fun label => ?_⟩
    · exact .braced (lexBraced_legal .ident _ (by rw [show (lexBraced _ _).kind = _ from ident]; simp)).2
    · have legal := lexBraced_legal .ident _ (by rw [show (lexBraced _ _).kind = _ from label]; simp)
      cases legal.1.symm.trans label
  · refine ⟨fun ident => ?_,fun label => ?_⟩
    · have legal := lexLabel_spelled _ (by rw [show (lexLabel _).kind = _ from ident]; simp)
      cases legal.1.symm.trans ident
    · exact (lexLabel_spelled _ (by rw [show (lexLabel _).kind = _ from label]; simp)).2
  · next cs =>
    rcases lexTest_kind cs with kind | kind | kind
    · exact other_spelled _ kind (by decide)
    · exact other_spelled _ kind (by decide)
    · exact other_spelled _ kind (by decide)
  · next cs =>
    rcases lexWeight_kind .star ['*'] cs with kind | kind
    · exact other_spelled _ kind (by decide)
    · exact other_spelled _ kind (by decide)
  · exact other_spelled .arrow rfl (by decide)
  · next cs =>
    rcases lexMarking_kind cs with kind | kind
    · exact other_spelled _ kind (by decide)
    · exact other_spelled _ kind (by decide)
  · next cs =>
    rcases lexInterval_kind cs with kind | kind
    · exact other_spelled _ kind (by decide)
    · exact other_spelled _ kind (by decide)
  · next cs =>
    rcases lexInterval_kind cs with kind | kind
    · exact other_spelled _ kind (by decide)
    · exact other_spelled _ kind (by decide)
  · exact other_spelled .gt rfl (by decide)
  · exact other_spelled .lt rfl (by decide)
  · split
    · next start =>
      refine ⟨lexWord_spelled _ _ start,fun label => ?_⟩
      exact absurd label (lexWord_kind _)
    · split
      · exact other_spelled .int rfl (by decide)
      · exact other_spelled .illegal rfl (by decide)

theorem tokensFrom_spelled (here : Position) (cs : List Char) : ∀ token ∈ tokensFrom here cs, token.Spelled := by
  have first : ∀ here cs, Token.Spelled ⟨(lex cs).kind,String.ofList (lex cs).shown,here⟩ := by
    intro here cs
    obtain ⟨name,label⟩ := lexMark_spelled (trivia false cs).2
    refine ⟨fun ident => ?_,fun isLabel => ?_⟩
    · rw [String.toList_ofList]; exact name ident
    · rw [String.toList_ofList]; exact label isLabel
  fun_induction tokensFrom here cs with
  | case1 here cs lexeme start token ends =>
    intro other member
    cases List.mem_singleton.mp member
    exact first _ cs
  | case2 here cs lexeme start token more ih =>
    intro other member
    rcases List.mem_cons.mp member with rfl | later
    · exact first _ cs
    · exact ih other later

end TimePetri.Script
