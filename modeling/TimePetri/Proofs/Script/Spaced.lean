import Mathlib
import TimePetri.Proofs.Script.Places
import TimePetri.Proofs.Script.Written

namespace TimePetri.Script

-- What may be put between two tokens: blanks, and comments with the character that ends
-- their line.
inductive Spacing : List Char → Prop where
  | none : Spacing []
  | blank {c : Char} {rest : List Char} (dark : isBlank c = true) (further : Spacing rest) : Spacing (c :: rest)
  | comment {line rest : List Char} {c : Char} (within : ∀ d ∈ line, Cursor.inLine d = true)
      (ends : Cursor.inLine c = false) (further : Spacing rest) : Spacing ('#' :: line ++ c :: rest)

structure Chunk where
  form : Form
  gap : List Char
  spacing : Spacing gap
  delimited : Delimited gap

def Chunk.source (chunk : Chunk) : List Char := chunk.form.source ++ chunk.gap

variable {cs other gap front before skipped following rest : List Char} {here : Position} {text : String} {call n : Nat}

theorem delimited_append (delimited : Delimited gap) (rest : List Char) : Delimited (gap ++ rest) := by
  obtain ⟨c,more,rfl,dark⟩ := delimited
  exact ⟨c,more ++ rest,rfl,dark⟩

theorem trivia_spacing (spacing : Spacing gap) (rest : List Char) :
    (trivia false (gap ++ rest)).2 = (trivia false rest).2 := by
  induction spacing with
  | none => rfl
  | blank dark further ih => exact (trivia_blank dark _).trans ih
  | @comment line more c within ends further ih =>
    have feed : isBlank c = true := by
      have feeds : c = '\n' ∨ c = '\r' := by simpa [Cursor.inLine,or_iff_not_imp_left] using ends
      rcases feeds with rfl | rfl <;> decide
    have stops : Stops Cursor.inLine (c :: (more ++ rest)) := fun d here => by cases here; exact ends
    have opened : trivia false ('#' :: (line ++ c :: (more ++ rest))) =
        trivia.skipped '#' (trivia true (line ++ c :: (more ++ rest))) := by simp [trivia,isBlank]
    rw [List.append_assoc,List.cons_append,List.cons_append,opened,trivia_within within stops]
    exact (trivia_blank feed _).trans ih

theorem glyphs_spacing (spacing : Spacing gap) (rest : List Char) : glyphs (gap ++ rest) = glyphs rest := by
  refine glyphs_same ?_
  rw [lex_seen,lex_seen,trivia_spacing spacing]

theorem glyphs_chunks (chunks : List Chunk) : glyphs (chunks.flatMap Chunk.source) =
    chunks.map (fun chunk => chunk.form.token) ++ [glyph .eof "EOF".toList] := by
  induction chunks with
  | nil => exact glyphs_end
  | cons chunk rest ih =>
    have ends := delimited_ends chunk.form (delimited_append chunk.delimited (rest.flatMap Chunk.source))
    rw [List.flatMap_cons,Chunk.source,List.append_assoc,glyphs_form chunk.form ends,glyphs_spacing chunk.spacing,ih]
    rfl

def spread (front : List Char) (chunks : List Chunk) : String := String.ofList (front ++ chunks.flatMap Chunk.source)

theorem glyphs_spread (spacing : Spacing front) (chunks : List Chunk) : glyphs (spread front chunks).toList =
    chunks.map (fun chunk => chunk.form.token) ++ [glyph .eof "EOF".toList] := by
  rw [spread,String.toList_ofList,glyphs_spacing spacing,glyphs_chunks]

theorem tokensFrom_calls (here : Position) (cs : List Char) (n : Nat) (behind : Cursor.reached text n = ⟨cs,here⟩) :
    tokensFrom here cs = (List.range' n (tokensFrom here cs).length).map (Cursor.scanned text) := by
  fun_induction tokensFrom here cs generalizing n with
  | case1 here cs lexeme start token ends =>
    exact congrArg (· :: []) (reached_next behind).1.symm
  | case2 here cs lexeme start token more ih =>
    have same : Cursor.scanned text n = token := (reached_next behind).1
    rw [List.length_cons,List.range'_succ,List.map_cons,same,← ih (n + 1) (reached_next behind).2]

theorem glyphs_calls (text : String) : glyphs text.toList =
    (List.range (glyphs text.toList).length).map fun call => (Cursor.scanned text call).unplaced := by
  have calls := tokensFrom_calls .start text.toList 0 rfl
  unfold glyphs
  rw [List.length_map,List.range_eq_range']
  nth_rewrite 1 [calls]
  rw [List.map_map]
  rfl

theorem skipped_visible (skips : Skipped skipped following) : Stops (fun c => isBlank c || c = '#') following := by
  induction skips with
  | none visible => exact visible
  | blank _ _ ih => exact ih
  | comment _ _ _ ih => exact ih

theorem glyphs_skipped (skips : Skipped skipped following) : glyphs (skipped ++ following) = glyphs following := by
  refine glyphs_same ?_
  rw [lex_seen,lex_seen,skipped_trivia skips,trivia_none (skipped_visible skips)]

theorem skipped_head (skips : Skipped skipped following) (same : following.head? = other.head?) : Skipped skipped other := by
  induction skips with
  | none visible => exact .none (stops_head same visible)
  | blank dark _ ih => exact .blank dark (ih same)
  | comment within ends _ ih =>
    refine .comment within (stops_head ?_ ends) (ih same)
    rw [List.head?_append,List.head?_append,same]

-- What may take the place of what follows a token: it keeps the first character, or it
-- starts with a blank.
def Replaces (other rest : List Char) : Prop := rest.head? = other.head? ∨ Delimited other

theorem replaced_ends (form : Form) (replaces : Replaces other rest) (ends : form.Ends rest) : form.Ends other :=
  replaces.elim (fun same => head_ends form same ends) (delimited_ends form)

theorem glyphs_replaced (more : ¬ (lex cs).kind.Last) (replaces : Replaces other (lex cs).rest) :
    glyphs ((lex cs).lead ++ (lex cs).body ++ other) = glyph (lex cs).kind (lex cs).shown :: glyphs other := by
  obtain ⟨skipped,following,_,skips,lexed⟩ := lex_skipped cs
  rw [lexed] at more replaces ⊢
  obtain ⟨form,source,kind,shown,ends⟩ := lexMark_formed following more
  have some : form.source ≠ [] := fun none => by
    rw [none] at source
    exact lexMark_body more (List.append_eq_nil_iff.mp source.symm).2
  have heads : following.head? = (form.source ++ other).head? := by
    rw [← lexMark_source following,Lexeme.source,← source,List.head?_append_of_ne_nil _ some,
      List.head?_append_of_ne_nil _ some]
  have token : form.token = glyph (lexMark following).kind (lexMark following).shown := by rw [Form.token,kind,shown]
  dsimp only [Lexeme.skip]
  rw [List.append_assoc skipped,← source,List.append_assoc,glyphs_skipped (skipped_head skips heads),
    glyphs_form form (replaced_ends form replaces ends),token]

theorem glyphs_kept (legal : ∀ k, k < call → ¬ (Cursor.scanned text k).kind.Last) :
    ∃ before, text.toList = before ++ (Cursor.reached text call).rest ∧
      ∀ other, Replaces other (Cursor.reached text call).rest → glyphs (before ++ other) =
        (List.range call).map (fun k => (Cursor.scanned text k).unplaced) ++ glyphs other := by
  induction call with
  | zero => exact ⟨[],rfl,fun _ _ => rfl⟩
  | succ call ih =>
    obtain ⟨before,whole,kept⟩ := ih fun k earlier => legal k (Nat.lt_succ_of_lt earlier)
    have more := legal call (Nat.lt_succ_self call)
    generalize reached : Cursor.reached text call = cursor at whole kept
    obtain ⟨cs,here⟩ := cursor
    obtain ⟨token,next⟩ := reached_next reached
    have source := lex_source cs
    rw [token] at more
    rw [next,List.range_succ,List.map_append,List.map_singleton,token]
    have some : (lex cs).lead ++ (lex cs).body ≠ [] := fun none => lexMark_body more (List.append_eq_nil_iff.mp none).2
    refine ⟨before ++ ((lex cs).lead ++ (lex cs).body),?_,fun other replaces => ?_⟩
    · rw [whole,List.append_assoc]
      exact congrArg (before ++ ·) source.symm
    -- The token before the call begins as it did, so that the tokens in front of it stay
    -- when what is behind it is replaced.
    · have heads : cs.head? = ((lex cs).lead ++ (lex cs).body ++ other).head? := by
        nth_rewrite 1 [← source]
        rw [Lexeme.source,List.head?_append_of_ne_nil _ some,List.head?_append_of_ne_nil _ some]
      rw [List.append_assoc,kept _ (.inl heads),glyphs_replaced more replaces]
      exact List.append_cons _ _ _

theorem glyphs_respaced (legal : ∀ k, k < call → ¬ (Cursor.scanned text k).kind.Last)
    (whole : text.toList = before ++ skipped ++ rest) (behind : (Cursor.reached text call).rest = skipped ++ rest)
    (skips : Skipped skipped rest) (spacing : Spacing gap) (delimited : Delimited gap) :
    glyphs (before ++ gap ++ rest) = glyphs text.toList := by
  obtain ⟨front,split,kept⟩ := glyphs_kept legal
  rw [behind] at split kept
  obtain rfl : before = front := by
    rw [whole,List.append_assoc] at split
    exact List.append_cancel_right split
  rw [List.append_assoc,kept (gap ++ rest) (.inr (delimited_append delimited rest)),split,kept _ (.inl rfl),
    glyphs_spacing spacing,glyphs_skipped skips]

end TimePetri.Script
