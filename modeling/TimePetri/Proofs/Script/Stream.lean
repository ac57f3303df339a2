import TimePetri.Proofs.Script.Spelling
import TimePetri.Proofs.Script.Unplaced
import TimePetri.Script.Declaration
import TimePetri.Script.Tokens

namespace TimePetri.Script

-- The tokens of these kinds read the same wherever they stand.
def fixedText? : Kind → Option String
  | .transition => some "tr"
  | .place => some "pl"
  | .net => some "net"
  | .priority => some "pr"
  | .note => some "nt"
  | .arrow => some "->"
  | .gt => some ">"
  | .lt => some "<"
  | .eof => some "EOF"
  | _ => none

def Kind.Last (kind : Kind) : Prop := kind = .eof ∨ kind = .illegal

structure Token.Fixed (token : Token) : Prop where
  unplaced : token = sign token.kind token.text
  text : ∀ text, fixedText? token.kind = some text → token.text = text

variable {kind : Kind} {text : String} {token : Token}

theorem Token.Fixed.sign (fixed : token.Fixed) (same : token.kind = kind) : token = sign kind token.text := by
  rw [← same]
  exact fixed.unplaced

theorem Token.Fixed.fixed (fixed : token.Fixed) (same : token.kind = kind) (text : String)
    (known : fixedText? kind = some text) : token = Script.sign kind text := by
  have whole := fixed.sign same
  rwa [fixed.text text (by rw [same]; exact known)] at whole

theorem wordKind_fixed (word text : String) (known : fixedText? (wordKind word) = some text) : word = text := by
  unfold wordKind keywords at known
  simp only [List.lookup_cons,List.lookup_nil] at known
  repeat' split at known
  all_goals simp_all [fixedText?]

theorem wordKind_more (word : String) : ¬ (wordKind word).Last := by
  unfold Kind.Last wordKind keywords
  simp only [List.lookup_cons,List.lookup_nil]
  repeat' split
  all_goals simp

theorem lexWord_fixed (cs : List Char) (text : String) (known : fixedText? (lexWord cs).kind = some text) :
    (lexWord cs).shown = text.toList := by
  unfold lexWord at known ⊢
  dsimp only at known ⊢
  split at known
  · cases known
  · have same := wordKind_fixed _ text known
    rw [← same,String.toList_ofList]
    rfl

theorem lexBraced_kind (kind : Kind) (cs : List Char) :
    (lexBraced kind cs).kind = kind ∨ (lexBraced kind cs).kind = .illegal := by
  by_cases legal : (lexBraced kind cs).kind = .illegal
  · exact .inr legal
  · exact .inl (lexBraced_legal kind cs legal).1

theorem lexLabel_kind (cs : List Char) : (lexLabel cs).kind = .label ∨ (lexLabel cs).kind = .illegal := by
  unfold lexLabel
  split
  · exact .inr rfl
  · exact lexBraced_kind _ _
  · split
    · exact .inr rfl
    · unfold lexBareLabel
      dsimp only
      split
      · exact .inr rfl
      · exact .inl rfl

theorem free_fixed {lexeme : Lexeme} (kind : Kind) (same : lexeme.kind = kind) (free : fixedText? kind = none)
    (known : fixedText? lexeme.kind = some text) : lexeme.shown = text.toList := by
  rw [same,free] at known
  cases known

theorem lexMark_fixed (cs : List Char) (text : String) (known : fixedText? (lexMark cs).kind = some text) :
    (lexMark cs).shown = text.toList := by
  unfold lexMark at known ⊢
  split at known
  · cases known; rfl
  · rcases lexBraced_kind .ident ‹_› with kind | kind <;> exact free_fixed _ kind rfl known
  · next cs =>
    rcases lexLabel_kind (cs.dropWhile isBlank) with kind | kind <;> exact free_fixed _ kind rfl known
  · next cs =>
    rcases lexTest_kind cs with kind | kind | kind <;> exact free_fixed _ kind rfl known
  · next cs =>
    rcases lexWeight_kind .star ['*'] cs with kind | kind <;> exact free_fixed _ kind rfl known
  · cases known; rfl
  · next cs =>
    rcases lexMarking_kind cs with kind | kind <;> exact free_fixed _ kind rfl known
  · next cs =>
    rcases lexInterval_kind cs with kind | kind <;> exact free_fixed _ kind rfl known
  · next cs =>
    rcases lexInterval_kind cs with kind | kind <;> exact free_fixed _ kind rfl known
  · cases known; rfl
  · cases known; rfl
  · split at known
    · next start => rw [if_pos start]; exact lexWord_fixed _ _ known
    · next start =>
      rw [if_neg start]
      split at known
      · cases known
      · cases known

theorem tokensFrom_shape (here : Position) (cs : List Char) :
    ∃ front last, tokensFrom here cs = front ++ [last] ∧ last.kind.Last ∧ (∀ token ∈ front, ¬ token.kind.Last) ∧
      front.length ≤ cs.length := by
  fun_induction tokensFrom here cs with
  | case1 here cs lexeme start token ends => exact ⟨[],token,rfl,ends,by simp,Nat.zero_le _⟩
  | case2 here cs lexeme start token more ih =>
    obtain ⟨front,last,same,ends,legal,short⟩ := ih
    refine ⟨token :: front,last,by rw [same]; rfl,ends,?_,?_⟩
    · intro other member
      rcases List.mem_cons.mp member with rfl | later
      · exact more
      · exact legal other later
    -- Each token but the last uses up a character.
    · have shorter := lex_shorter cs fun ends => more (.inl ends)
      change (lexeme.rest.length < cs.length) at shorter
      rw [List.length_cons]
      omega

theorem after_append (here : Position) (cs ds : List Char) : here.after (cs ++ ds) = (here.after cs).after ds :=
  List.foldl_append

theorem after_bound (here : Position) (cs : List Char) :
    (here.after cs).line ≤ here.line + cs.length ∧ (here.after cs).column ≤ here.column + cs.length := by
  induction cs generalizing here with
  | nil => exact ⟨Nat.le_refl _,Nat.le_refl _⟩
  | cons c rest ih =>
    have one : (here.step c).line ≤ here.line + 1 ∧ (here.step c).column ≤ here.column + 1 := by
      unfold Position.step
      split <;> simp
    have later := ih (here.step c)
    change ((here.step c).after rest).line ≤ _ ∧ ((here.step c).after rest).column ≤ _
    rw [List.length_cons]
    omega

theorem tokensFrom_bound (here : Position) (cs : List Char) : ∀ token ∈ tokensFrom here cs,
    token.position.line ≤ here.line + cs.length ∧ token.position.column ≤ here.column + cs.length := by
  have lead : ∀ (here : Position) (cs : List Char), (here.after (lex cs).lead).line ≤ here.line + cs.length ∧
      (here.after (lex cs).lead).column ≤ here.column + cs.length := by
    intro here cs
    have whole := congrArg List.length (lex_source cs)
    simp only [Lexeme.source,List.length_append] at whole
    have bound := after_bound here (lex cs).lead
    omega
  fun_induction tokensFrom here cs with
  | case1 here cs lexeme start token ends =>
    intro other member
    cases List.mem_singleton.mp member
    exact lead here cs
  | case2 here cs lexeme start token more ih =>
    intro other member
    rcases List.mem_cons.mp member with rfl | later
    · exact lead here cs
    · have whole : lexeme.lead.length + lexeme.body.length + lexeme.rest.length = cs.length := by
        have source := congrArg List.length (lex_source cs)
        simpa only [Lexeme.source,List.length_append] using source
      have first : start.line ≤ here.line + lexeme.lead.length ∧ start.column ≤ here.column + lexeme.lead.length :=
        after_bound here lexeme.lead
      have second := after_bound start lexeme.body
      have rest := ih other later
      omega

theorem tokensFrom_fixed (here : Position) (cs : List Char) :
    ∀ token ∈ tokensFrom here cs, ∀ text, fixedText? token.kind = some text → token.text = text := by
  have first : ∀ (cs : List Char) (text : String), fixedText? (lex cs).kind = some text →
      String.ofList (lex cs).shown = text := by
    intro cs text known
    rw [show (lex cs).shown = text.toList from lexMark_fixed _ text known,String.ofList_toList]
  fun_induction tokensFrom here cs with
  | case1 here cs lexeme start token ends =>
    intro other member
    cases List.mem_singleton.mp member
    exact first cs
  | case2 here cs lexeme start token more ih =>
    intro other member
    rcases List.mem_cons.mp member with rfl | later
    · exact first cs
    · exact ih other later

theorem trivia_none {cs : List Char} (visible : Stops (fun c => isBlank c || c = '#') cs) : trivia false cs = ([],cs) := by
  cases cs with
  | nil => rfl
  | cons c cs =>
    obtain ⟨dark,plain⟩ := Bool.or_eq_false_iff.mp (visible c rfl)
    rw [trivia]
    simp [dark,of_decide_eq_false plain]

theorem lex_visible {cs : List Char} (visible : Stops (fun c => isBlank c || c = '#') cs) : lex cs = lexMark cs := by
  unfold lex
  rw [trivia_none visible]
  rfl

theorem visible_cons (wanted : Char → Bool) (never : [' ','\t','\r','\n','#'].any wanted = false) (c : Char)
    (here : wanted c = true) (rest : List Char) : Stops (fun c => isBlank c || c = '#') (c :: rest) := by
  rintro d ⟨⟩
  refine Bool.eq_false_iff.mpr fun dark => ?_
  have skipped : c ∈ [' ','\t','\r','\n','#'] := by simpa [isBlank,or_assoc] using dark
  exact List.any_eq_false.mp never c skipped here

theorem tokensFrom_accept {cs shown body rest : List Char} (visible : Stops (fun c => isBlank c || c = '#') cs)
    (lexed : lexMark cs = accept kind shown body rest) (more : ¬ kind.Last) (here : Position) :
    tokensFrom here cs = ⟨kind,String.ofList shown,here⟩ :: tokensFrom (here.after body) rest := by
  have same : lex cs = accept kind shown body rest := (lex_visible visible).trans lexed
  rw [tokensFrom.eq_1 here cs,dif_neg (by rw [same]; exact more),same]
  rfl

theorem tokensFrom_illegal {cs : List Char} (visible : Stops (fun c => isBlank c || c = '#') cs)
    (illegal : (lexMark cs).kind = .illegal) (immediate : Immediate (lexMark cs)) (here : Position) :
    tokensFrom here cs = [⟨.illegal,String.ofList (lexMark cs).shown,here⟩] := by
  unfold Immediate at immediate
  rw [tokensFrom.eq_1 here cs,lex_visible visible,dif_pos (.inr illegal),immediate,illegal]
  rfl

theorem unplaced_fixed (member : token ∈ (tokensFrom here cs).map Token.unplaced) : token.Fixed := by
  obtain ⟨placed,inTokens,rfl⟩ := List.mem_map.mp member
  exact ⟨rfl,tokensFrom_fixed here cs placed inTokens⟩

end TimePetri.Script
