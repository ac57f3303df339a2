import Mathlib
import TimePetri.Proofs.Script.Forms

namespace TimePetri.Script

-- A token as it is written. A keyword may be written in capitals, and a number that stands
-- alone is a digit or has two of them.
inductive Form where
  | keyword (word : List Char) (kind : Kind) (reserved : (String.ofList (word.map Char.toLower),kind) ∈ keywords)
  | name (name : List Char) (isName : IsName name)
  | label (blanks label : List Char) (dark : ∀ c ∈ blanks, isBlank c = true) (isLabel : IsLabel label)
  | interval (opening closing : Char) (body : List Char) (opens : IsBracket opening) (closes : IsBracket closing)
    (all : ∀ c ∈ body, inside c = true)
  | digit (c : Char) (digit : c.isDigit = true)
  | number (setting : Setting) (n : Numeral) (long : setting = .alone → 2 ≤ n.digits.length)
  | arrow
  | above
  | below

def Form.source : Form → List Char
  | .keyword word _ _ => word
  | .name cs _ => cs
  | .label blanks cs _ _ => ':' :: blanks ++ cs
  | .interval opening closing body _ _ _ => opening :: (body ++ [closing])
  | .digit c _ => [c]
  | .number setting n _ => setting.around n.written
  | .arrow => ['-','>']
  | .above => ['>']
  | .below => ['<']

def Form.kind : Form → Kind
  | .keyword _ kind _ => kind
  | .name _ _ => .ident
  | .label _ _ _ _ => .label
  | .interval _ _ _ _ _ _ => .interval
  | .digit _ _ => .int
  | .number setting _ _ => setting.kind
  | .arrow => .arrow
  | .above => .gt
  | .below => .lt

def Form.shown : Form → List Char
  | .keyword word _ _ => word.map Char.toLower
  | .name cs _ => cs
  | .label _ cs _ _ => cs
  | .interval opening closing body _ _ _ => bracketed opening closing body
  | .digit c _ => [c]
  | .number _ n _ => n.written
  | .arrow => ['-','>']
  | .above => ['>']
  | .below => ['<']

def Form.token (form : Form) : Token := glyph form.kind form.shown

-- What follows does not go on with the token, and ends a label that is not in braces.
def Form.Ends : Form → List Char → Prop
  | .keyword _ _ _ => Stops isIdentChar
  | .name cs _ => NameEnds cs
  | .label _ cs _ _ => LabelEnds cs
  | .digit _ _ => Stops Char.isDigit
  | .number setting n _ => fun rest => n.Ends (setting.after ++ rest)
  | _ => fun _ => True

def Lexeme.Formed (lexeme : Lexeme) : Prop :=
  ∃ form : Form, form.source = lexeme.lead ++ lexeme.body ∧ form.kind = lexeme.kind ∧ form.shown = lexeme.shown ∧
    form.Ends lexeme.rest

variable {kind : Kind} {cs rest other low high : List Char} {c opening closing : Char}

theorem wordKind_reserved {word : String} (other : kind ≠ .ident) : wordKind word = kind ↔ (word,kind) ∈ keywords := by
  constructor
  · intro same
    unfold wordKind at same
    cases found : keywords.lookup word with
    | none =>
      rw [found] at same
      exact absurd same.symm other
    | some known =>
      rw [found] at same
      cases same
      obtain ⟨before,after,split,_⟩ := List.lookup_eq_some_iff.mp found
      rw [split]
      simp
  · intro reserved
    have all : ∀ entry ∈ keywords, wordKind entry.1 = entry.2 := by decide
    exact all _ reserved

theorem keyword_letters (reserved : (String.ofList (cs.map Char.toLower),kind) ∈ keywords) :
    (∀ c ∈ cs, isIdentStart c = true) ∧ cs ≠ [] ∧ kind ≠ .ident ∧ kind ≠ .eof ∧ kind ≠ .illegal := by
  have all : ∀ entry ∈ keywords, entry.1.toList.all isIdentStart = true ∧ entry.1.toList ≠ [] ∧
      entry.2 ≠ .ident ∧ entry.2 ≠ .eof ∧ entry.2 ≠ .illegal := by decide
  obtain ⟨letters,some,kinds⟩ := all _ reserved
  dsimp only at letters some kinds
  rw [String.toList_ofList] at letters some
  refine ⟨fun c member => ?_,fun none => some (by rw [none]; rfl),kinds⟩
  have lower : c.toLower.isAlpha = true := List.all_eq_true.mp letters _ (List.mem_map_of_mem member)
  rwa [Char.isAlpha_toLower_eq_isAlpha] at lower

theorem glyphs_keyword (reserved : (String.ofList (cs.map Char.toLower),kind) ∈ keywords)
    (stops : Stops isIdentChar rest) : glyphs (cs ++ rest) = glyph kind (cs.map Char.toLower) :: glyphs rest := by
  obtain ⟨letters,some,other,legal⟩ := keyword_letters reserved
  obtain ⟨c,word,rfl⟩ := List.exists_cons_of_ne_nil some
  have inner : word.all isIdentChar = true :=
    List.all_eq_true.mpr fun d member => isIdentStart_char d (letters d (List.mem_cons_of_mem _ member))
  rw [glyphs_word kind c word (letters c (by simp)) inner ((wordKind_reserved other).mpr reserved) stops legal,if_neg other]

theorem glyphs_digit (digit : c.isDigit = true) (stops : Stops Char.isDigit rest) :
    glyphs (c :: rest) = glyph .int [c] :: glyphs rest := by
  have visible : isBlank c = false ∧ c ≠ '#' := by
    have skipped := visible_cons Char.isDigit (by decide) c digit rest c rfl
    simpa using skipped
  refine glyphs_mark ?_ visible (by decide)
  rw [lexMark_digit _ _ digit (digit_letter c digit)]
  unfold lexInt
  rw [numeral_none stops]
  rfl

theorem glyphs_form (form : Form) (ends : form.Ends rest) : glyphs (form.source ++ rest) = form.token :: glyphs rest := by
  cases form with
  | keyword word kind reserved => exact glyphs_keyword reserved ends
  | name name isName => exact glyphs_name isName ends
  | label blanks label dark isLabel => exact glyphs_label dark isLabel ends
  | interval opening closing body opens closes all =>
    have whole : opening :: (body ++ [closing]) ++ rest = opening :: (body ++ closing :: rest) := by simp
    exact (congrArg glyphs whole).trans (glyphs_bracketed opens closes all rest)
  | digit c digit => exact glyphs_digit digit ends
  | number setting n long => exact glyphs_token (tokens_numeral setting n .start (fun alone => .inr (long alone)) ends)
  | arrow => exact glyphs_arrow rest
  | above => exact glyphs_above rest
  | below => exact glyphs_mark rfl (by decide) (by decide)

theorem delimited_ends (form : Form) (delimited : Delimited rest) : form.Ends rest := by
  cases form with
  | keyword word kind reserved => exact delimited_word delimited
  | name name isName => exact fun _ => delimited_word delimited
  | label blanks label dark isLabel => exact fun _ => delimited
  | digit c digit => exact fun d here => (Bool.or_eq_false_iff.mp (delimited_number delimited d here)).1
  | number setting n long =>
    match setting with
    | .enclosed => intro _ c here; cases here; rfl
    | .alone | .weight _ => exact fun _ => delimited_number delimited
  | interval | arrow | above | below => trivial

theorem head_ends (form : Form) (same : rest.head? = other.head?) (ends : form.Ends rest) : form.Ends other := by
  cases form with
  | keyword word kind reserved => exact stops_head same ends
  | name name isName => exact fun bare => stops_head same (ends bare)
  | label blanks label dark isLabel =>
    intro bare
    obtain ⟨b,more,rfl,dark⟩ := ends bare
    obtain ⟨others,rfl⟩ := List.head?_eq_some_iff.mp same.symm
    exact ⟨b,others,rfl,dark⟩
  | digit c digit => exact stops_head same ends
  | number setting n long =>
    have heads : (setting.after ++ rest).head? = (setting.after ++ other).head? := by
      rw [List.head?_append,List.head?_append,same]
    exact fun bare => stops_head heads (ends bare)
  | interval | arrow | above | below => trivial

theorem lexWord_formed (start : isIdentStart c = true) : (lexWord (c :: cs)).Formed := by
  unfold lexWord
  dsimp only
  split
  · next free =>
    have first : (c :: cs).takeWhile isIdentChar = c :: cs.takeWhile isIdentChar := by simp [isIdentStart_char c start]
    rw [first] at free ⊢
    have isName : IsName _ := .bare c _ start (fun d member => List.mem_takeWhile_imp member) free
    exact ⟨.name _ isName,rfl,rfl,rfl,fun _ => dropWhile_stops _ _⟩
  · next other => exact ⟨.keyword _ _ ((wordKind_reserved other).mp rfl),rfl,rfl,rfl,dropWhile_stops _ _⟩

theorem numeral_taken (cs : List Char) :
    (numeral cs).1 = [] ∧ Stops Char.isDigit (numeral cs).2 ∨
      ∃ n : Numeral, (numeral cs).1 = n.written ∧ n.Ends (numeral cs).2 := by
  have only : ∀ c ∈ cs.takeWhile Char.isDigit, c.isDigit = true := fun c member => List.mem_takeWhile_imp member
  have stops := dropWhile_stops Char.isDigit cs
  unfold numeral
  generalize cs.takeWhile Char.isDigit = digits at only
  generalize cs.dropWhile Char.isDigit = behind at stops
  cases digits with
  | nil => exact .inl ⟨rfl,stops⟩
  | cons d ds =>
    have bare : d :: ds = Numeral.written ⟨d :: ds,none,by simp,only,nofun⟩ := (List.append_nil _).symm
    cases behind with
    | nil => exact .inr ⟨_,bare,fun _ => nofun⟩
    | cons c rest =>
      by_cases multiplier : isMultiplier c = true
      · have letter : ∀ e ∈ some c, isMultiplier e = true := fun e same => by cases same; exact multiplier
        exact .inr ⟨⟨d :: ds,some c,by simp,only,letter⟩,by simp [multiplier,Numeral.written],nofun⟩
      · have plain : isMultiplier c = false := by simpa using multiplier
        have ends : Stops (fun c => c.isDigit || isMultiplier c) (c :: rest) := fun e here => by
          cases here
          simp [stops c rfl,plain]
        exact .inr ⟨_,by simpa [plain] using bare,fun _ => by simpa [plain] using ends⟩

theorem lexInt_formed (digit : c.isDigit = true) : (lexInt c cs).Formed := by
  rcases numeral_taken cs with ⟨none,stops⟩ | ⟨tail,more,ends⟩
  · have alone : (lexInt c cs).shown = [c] := congrArg (c :: ·) none
    exact ⟨.digit c digit,alone.symm,rfl,alone.symm,stops⟩
  · have only : ∀ d ∈ c :: tail.digits, d.isDigit = true := List.forall_mem_cons.mpr ⟨digit,tail.only⟩
    have long := Nat.succ_le_succ (List.length_pos_iff.mpr tail.some)
    let n : Numeral := ⟨c :: tail.digits,tail.suffix,by simp,only,tail.letter⟩
    have whole : n.written = c :: (numeral cs).1 := congrArg (c :: ·) more.symm
    refine ⟨.number .alone n fun _ => long,?_,rfl,whole,ends⟩
    exact (List.append_nil _).trans whole

theorem lexWeight_taken {decoration : List Char} (legal : (lexWeight kind decoration cs).kind ≠ .illegal) :
    ∃ (n : Numeral) (rest : List Char), n.Ends rest ∧
      lexWeight kind decoration cs = accept kind n.written (decoration ++ n.written) rest := by
  unfold lexWeight at legal ⊢
  split at legal
  · exact absurd rfl legal
  · next number rest some found =>
    rcases numeral_taken cs with ⟨none,_⟩ | ⟨n,written,ends⟩
    · rw [found] at none
      exact (some none).elim
    · rw [found] at written ends
      dsimp only at written ends
      exact ⟨n,rest,ends,by rw [written]⟩

theorem lexWeight_formed (decoration : Decoration)
    (legal : (lexWeight decoration.kind (Setting.weight decoration).before cs).kind ≠ .illegal) :
    (lexWeight decoration.kind (Setting.weight decoration).before cs).Formed := by
  obtain ⟨n,rest,ends,lexed⟩ := lexWeight_taken legal
  rw [lexed]
  exact ⟨.number (.weight decoration) n nofun,List.append_nil _,rfl,rfl,ends⟩

theorem lexTest_formed (legal : (lexTest cs).kind ≠ .illegal) : (lexTest cs).Formed := by
  unfold lexTest at legal ⊢
  split at legal
  · exact lexWeight_formed .inhibitor legal
  · exact lexWeight_formed .read legal

theorem lexMarking_formed (legal : (lexMarking cs).kind ≠ .illegal) : (lexMarking cs).Formed := by
  unfold lexMarking at legal ⊢
  split at legal
  · exact absurd rfl legal
  · next number rest some found =>
    rcases numeral_taken cs with ⟨none,_⟩ | ⟨n,written,_⟩
    · rw [found] at none
      exact (some none).elim
    · rw [found] at written
      dsimp only at written
      rw [written]
      exact ⟨.number .enclosed n (by simp),rfl,rfl,rfl,fun _ c here => by cases here; rfl⟩
  · exact absurd rfl legal

theorem lexInterval_legal (legal : (lexInterval cs).kind ≠ .illegal) :
    ∃ body closing rest, cs = body ++ closing :: rest ∧ IsBracket closing ∧ ∀ c ∈ body, inside c = true := by
  fun_induction lexInterval cs with
  | case1 => exact absurd rfl legal
  | case2 c cs bracket => exact ⟨[],c,cs,rfl,by simpa [IsBracket] using bracket,by simp⟩
  | case3 cs bracket ih =>
    obtain ⟨body,closing,rest,rfl,closes,all⟩ := ih legal
    exact ⟨',' :: body,closing,rest,rfl,closes,List.forall_mem_cons.mpr ⟨rfl,all⟩⟩
  | case4 c cs bracket comma part ih =>
    obtain ⟨body,closing,rest,rfl,closes,all⟩ := ih legal
    have here : inside c = true := by unfold inside; rw [part]; rfl
    exact ⟨c :: body,closing,rest,rfl,closes,List.forall_mem_cons.mpr ⟨here,all⟩⟩
  | case5 c cs bracket comma part dark ih =>
    obtain ⟨body,closing,rest,rfl,closes,all⟩ := ih legal
    have here : inside c = true := by simp [inside,dark]
    exact ⟨c :: body,closing,rest,rfl,closes,List.forall_mem_cons.mpr ⟨here,all⟩⟩
  | case6 => exact absurd rfl legal

theorem lexInterval_formed (opens : IsBracket c) (legal : (lexInterval cs).kind ≠ .illegal) :
    ((lexInterval cs).grow [c,' '] [c]).Formed := by
  obtain ⟨body,closing,rest,rfl,closes,all⟩ := lexInterval_legal legal
  have shown : bracketed c closing body = [c,' '] ++ (shownBody body ++ [' ',closing]) := List.append_assoc _ _ _
  rw [lexInterval_inside closes all]
  exact ⟨.interval c closing body opens closes all,rfl,rfl,shown,trivial⟩

theorem lexMark_formed (cs : List Char) (more : ¬ (lexMark cs).kind.Last) : (lexMark cs).Formed := by
  have legal : (lexMark cs).kind ≠ .illegal := fun illegal => more (.inr illegal)
  revert more legal
  unfold lexMark
  split <;> intro more legal
  · exact absurd (.inl rfl) more
  · next cs =>
    obtain ⟨tail,rest,closed,lexed⟩ := lexBraced_closed .ident cs legal
    rw [lexed]
    exact ⟨.name _ (.braced closed),rfl,rfl,rfl,fun bare => absurd rfl bare⟩
  · next cs =>
    obtain ⟨label,rest,isLabel,ends,lexed⟩ := lexLabel_closed (dropWhile_stops isBlank cs) legal
    rw [lexed]
    have dark : ∀ d ∈ cs.takeWhile isBlank, isBlank d = true := fun d member => List.mem_takeWhile_imp member
    refine ⟨.label _ label dark isLabel,?_,rfl,rfl,ends⟩
    exact congrArg (· ++ label) (List.append_nil _).symm
  · exact lexTest_formed legal
  · exact lexWeight_formed .plain legal
  · exact ⟨.arrow,rfl,rfl,rfl,trivial⟩
  · exact lexMarking_formed legal
  · exact lexInterval_formed (.inl rfl) legal
  · exact lexInterval_formed (.inr rfl) legal
  · exact ⟨.above,rfl,rfl,rfl,trivial⟩
  · exact ⟨.below,rfl,rfl,rfl,trivial⟩
  · next c cs _ _ _ _ _ _ _ _ _ _ =>
    by_cases letter : isIdentStart c = true
    · rw [if_pos letter]
      exact lexWord_formed letter
    · rw [if_neg letter] at legal ⊢
      by_cases digit : c.isDigit = true
      · rw [if_pos digit]
        exact lexInt_formed digit
      · rw [if_neg digit] at legal
        exact absurd rfl legal

def Run (cs : List Char) : Prop := cs ≠ [] ∧ ∀ c ∈ cs, c.isDigit = true

theorem run_word (run : Run cs) : IsWord cs ∧ ∀ c ∈ cs, inside c = true := by
  obtain ⟨some,only⟩ := run
  refine ⟨⟨some,fun c member => part_visible c (by simp [only c member]),fun comma => by cases only _ comma⟩,?_⟩
  intro c member
  simp [inside,only c member]

theorem interval_form (opens : IsBracket opening) (closes : IsBracket closing) (lower : Run low)
    (upper : Run high ∨ high = ['w']) : ∃ form : Form, form.source = opening :: (low ++ ',' :: high ++ [closing]) ∧
      form.kind = .interval ∧ form.shown = shownInterval opening low high closing := by
  obtain ⟨lowWord,lowInside⟩ := run_word lower
  obtain ⟨highWord,highInside⟩ : IsWord high ∧ ∀ c ∈ high, inside c = true := by
    rcases upper with run | rfl
    · exact run_word run
    · exact ⟨⟨by decide,by simp [isBlank],by decide⟩,by simp [inside]⟩
  have all : ∀ c ∈ low ++ ',' :: high, inside c = true := by
    intro c member
    rcases List.mem_append.mp member with before | behind
    · exact lowInside c before
    · rcases List.mem_cons.mp behind with rfl | after
      · rfl
      · exact highInside c after
  exact ⟨.interval opening closing _ opens closes all,rfl,rfl,bracketed_shown opening closing lowWord highWord⟩

end TimePetri.Script
