import Mathlib.Data.List.Induction
import TimePetri.Proofs.Script.Cursor

namespace TimePetri.Script

-- The place behind some characters: their line feeds are counted, and the characters since
-- the last of them.
def placeOf (before : List Char) : Position :=
  ⟨1 + before.count '\n',1 + (before.reverse.takeWhile (· ≠ '\n')).length⟩

def Position.Before (one other : Position) : Prop :=
  one.line < other.line ∨ one.line = other.line ∧ one.column < other.column

def Position.UpTo (one other : Position) : Prop := one = other ∨ one.Before other

-- What stands in front of the first character of a token. For a label that is its colon
-- too, and the blanks behind it.
inductive Precedes : List Char → List Char → Prop where
  | plain {skipped following : List Char} (skips : Skipped skipped following) (other : following.head? ≠ some ':') :
      Precedes skipped following
  | label {skipped blanks following : List Char} (skips : Skipped skipped (':' :: blanks ++ following))
      (dark : ∀ c ∈ blanks, isBlank c = true) (visible : Stops isBlank following) :
      Precedes (skipped ++ ':' :: blanks) following

variable {here one other last : Position} {cs body skipped following : List Char} {text : String} {m n : Nat}

theorem placeOf_exact (before : List Char) : Position.start.after before = placeOf before := by
  induction before using List.reverseRecOn with
  | nil => rfl
  | append_singleton before c ih =>
    rw [after_append,ih]
    by_cases feed : c = '\n'
    · subst feed
      simp [Position.after,Position.step,placeOf,Nat.add_comm,Nat.add_left_comm]
    · simp [Position.after,Position.step,placeOf,feed,Nat.add_comm]

theorem Position.Before.trans (first : one.Before other) (second : other.Before last) : one.Before last := by
  unfold Position.Before at *
  omega

theorem Position.UpTo.trans (first : one.UpTo other) (second : other.UpTo last) : one.UpTo last := by
  rcases first with rfl | first
  · exact second
  · rcases second with rfl | second
    · exact .inr first
    · exact .inr (first.trans second)

theorem step_before (here : Position) (c : Char) : here.Before (here.step c) := by
  unfold Position.Before Position.step
  split <;> simp

theorem after_upTo (here : Position) (cs : List Char) : here.UpTo (here.after cs) := by
  induction cs generalizing here with
  | nil => exact .inl rfl
  | cons c rest ih => exact Position.UpTo.trans (.inr (step_before here c)) (ih (here.step c))

theorem after_before (here : Position) (some : cs ≠ []) : here.Before (here.after cs) := by
  cases cs with
  | nil => exact absurd rfl some
  | cons c rest =>
    rcases after_upTo (here.step c) rest with same | later
    · have first := step_before here c
      rw [same] at first
      exact first
    · exact (step_before here c).trans later

theorem lexMark_immediate (other : cs.head? ≠ some ':') : Immediate (lexMark cs) := by
  unfold lexMark
  split
  · rfl
  · exact (grow_immediate _ _ _).mpr (lexBraced_reads _ _).1
  · exact absurd rfl other
  · exact (lexTest_reads _).1
  · exact (lexWeight_reads _ _ _).1
  · rfl
  · exact (lexMarking_reads _).1
  · exact (grow_immediate _ _ _).mpr (lexInterval_reads _).1
  · exact (grow_immediate _ _ _).mpr (lexInterval_reads _).1
  · rfl
  · rfl
  · split
    · exact (lexWord_reads _).1
    · split
      · exact (lexInt_reads _ _).1
      · rfl

theorem lexMark_colon (cs : List Char) : (lexMark (':' :: cs)).lead = ':' :: cs.takeWhile isBlank ∧
    (lexMark (':' :: cs)).body ++ (lexMark (':' :: cs)).rest = cs.dropWhile isBlank := by
  obtain ⟨immediate,source⟩ := lexLabel_reads (cs.dropWhile isBlank)
  unfold Immediate at immediate
  unfold Lexeme.source at source
  rw [immediate,List.nil_append] at source
  rw [lexMark,Lexeme.skip,immediate,List.append_nil]
  exact ⟨rfl,source⟩

theorem lex_precedes (cs : List Char) : Precedes (lex cs).lead ((lex cs).body ++ (lex cs).rest) := by
  obtain ⟨skipped,following,_,skips,lexed⟩ := lex_skipped cs
  rw [lexed]
  dsimp only [Lexeme.skip]
  by_cases colon : following.head? = some ':'
  · obtain ⟨more,rfl⟩ := List.head?_eq_some_iff.mp colon
    obtain ⟨lead,behind⟩ := lexMark_colon more
    rw [lead,behind]
    refine .label ?_ (fun c member => List.mem_takeWhile_imp member) (dropWhile_stops _ _)
    rwa [List.cons_append,List.takeWhile_append_dropWhile]
  · have immediate := lexMark_immediate colon
    have source := lexMark_source following
    unfold Immediate at immediate
    unfold Lexeme.source at source
    rw [immediate,List.nil_append] at source
    rw [immediate,List.append_nil,source]
    exact .plain skips colon

theorem precedes_lead (precedes : Precedes skipped following) : (lex (skipped ++ following)).lead = skipped := by
  cases precedes with
  | plain skips other =>
    have immediate := lexMark_immediate other
    unfold Immediate at immediate
    unfold lex
    rw [skipped_trivia skips]
    dsimp only [Lexeme.skip]
    rw [immediate,List.append_nil]
  | @label skipped blanks following skips dark visible =>
    have whole : skipped ++ ':' :: blanks ++ following = skipped ++ (':' :: blanks ++ following) := by simp
    obtain ⟨taken,_⟩ := takeWhile_stops isBlank blanks following dark visible
    unfold lex
    rw [whole,skipped_trivia skips]
    dsimp only [Lexeme.skip]
    rw [List.cons_append,(lexMark_colon _).1,taken]

theorem lexLabel_body (legal : ¬ (lexLabel cs).kind.Last) (visible : Stops isBlank cs) : (lexLabel cs).body ≠ [] := by
  unfold lexLabel at legal ⊢
  split
  · exact absurd (.inr rfl) legal
  · simp [Lexeme.grow]
  · next c rest _ =>
    have first : isBlank c = false := visible c rfl
    split
    · simp [reject]
    · unfold lexBareLabel
      dsimp only
      split <;> simp [accept,first]

theorem lexMark_body (legal : ¬ (lexMark cs).kind.Last) : (lexMark cs).body ≠ [] := by
  unfold lexMark at legal ⊢
  split
  · exact absurd (.inl rfl) legal
  · simp [Lexeme.grow]
  · exact lexLabel_body legal (dropWhile_stops _ _)
  · unfold lexTest
    split <;> unfold lexWeight <;> split <;> simp [Lexeme.grow,accept]
  · unfold lexWeight
    split <;> simp [Lexeme.grow,accept]
  · simp [accept]
  · unfold lexMarking
    split <;> simp [Lexeme.grow,accept]
  · simp [Lexeme.grow]
  · simp [Lexeme.grow]
  · simp [accept]
  · simp [accept]
  · split
    · next start => simp [lexWord_body,isIdentStart_char _ start]
    · split
      · simp [lexInt,accept]
      · simp [reject]

theorem reached_place (text : String) (n : Nat) : ∃ before, text.toList = before ++ (Cursor.reached text n).rest ∧
    (Cursor.reached text n).here = Position.start.after before := by
  induction n with
  | zero => exact ⟨[],rfl,rfl⟩
  | succ n ih =>
    obtain ⟨before,whole,place⟩ := ih
    have source := lex_source (Cursor.reached text n).rest
    unfold Lexeme.source at source
    rw [Cursor.reached,next_exact]
    refine ⟨before ++ (lex (Cursor.reached text n).rest).lead ++ (lex (Cursor.reached text n).rest).body,?_,?_⟩
    · rw [whole]
      nth_rewrite 1 [← source]
      simp [Lexeme.placed]
    · rw [after_append,after_append,← place]
      rfl

theorem scanned_exact (text : String) (n : Nat) : ∃ skipped body,
    (Cursor.reached text n).rest = skipped ++ body ++ (Cursor.reached text (n + 1)).rest ∧
      Precedes skipped (body ++ (Cursor.reached text (n + 1)).rest) ∧
      (Cursor.scanned text n).position = (Cursor.reached text n).here.after skipped ∧
      (Cursor.reached text (n + 1)).here = (Cursor.scanned text n).position.after body ∧
      (¬ (Cursor.scanned text n).kind.Last → body ≠ []) := by
  have source := lex_source (Cursor.reached text n).rest
  have precedes := lex_precedes (Cursor.reached text n).rest
  unfold Cursor.scanned
  rw [Cursor.reached,next_exact]
  exact ⟨_,_,source.symm,precedes,rfl,rfl,lexMark_body⟩

theorem scanned_next (text : String) (n : Nat) :
    (Cursor.scanned text n).position.UpTo (Cursor.scanned text (n + 1)).position ∧
      (¬ (Cursor.scanned text n).kind.Last →
        (Cursor.scanned text n).position.Before (Cursor.scanned text (n + 1)).position) := by
  obtain ⟨_,body,_,_,_,behind,some⟩ := scanned_exact text n
  obtain ⟨skipped,_,_,_,place,_,_⟩ := scanned_exact text (n + 1)
  rw [place,behind,← after_append]
  exact ⟨after_upTo _ _,fun legal => after_before _ (by simp [some legal])⟩

theorem scanned_upTo (text : String) (later : m ≤ n) :
    (Cursor.scanned text m).position.UpTo (Cursor.scanned text n).position := by
  induction later with
  | refl => exact .inl rfl
  | step _ ih => exact ih.trans (scanned_next text _).1

theorem scanned_before (text : String) (later : m < n) (legal : ∀ k, k < n → ¬ (Cursor.scanned text k).kind.Last) :
    (Cursor.scanned text m).position.Before (Cursor.scanned text n).position := by
  induction later with
  | refl => exact (scanned_next text m).2 (legal m (Nat.lt_succ_self m))
  | step _ ih =>
    have first := ih fun k inside => legal k (Nat.lt_succ_of_lt inside)
    exact first.trans ((scanned_next text _).2 (legal _ (Nat.lt_succ_self _)))

theorem reached_next (behind : Cursor.reached text n = ⟨cs,here⟩) :
    Cursor.scanned text n = ⟨(lex cs).kind,String.ofList (lex cs).shown,here.after (lex cs).lead⟩ ∧
      Cursor.reached text (n + 1) = ⟨(lex cs).rest,(here.after (lex cs).lead).after (lex cs).body⟩ := by
  rw [Cursor.scanned,Cursor.reached,behind,next_exact]
  exact ⟨rfl,rfl⟩

theorem tokensFrom_scanned (here : Position) (cs : List Char) (n : Nat) (behind : Cursor.reached text n = ⟨cs,here⟩)
    (legal : ∀ k, k < n → ¬ (Cursor.scanned text k).kind.Last) : ∀ token ∈ tokensFrom here cs,
      ∃ k, token = Cursor.scanned text k ∧ ∀ j, j < k → ¬ (Cursor.scanned text j).kind.Last := by
  fun_induction tokensFrom here cs generalizing n with
  | case1 here cs lexeme start token ends =>
    intro other member
    cases List.mem_singleton.mp member
    exact ⟨n,(reached_next behind).1.symm,legal⟩
  | case2 here cs lexeme start token more ih =>
    obtain ⟨same,next⟩ := reached_next behind
    intro other member
    rcases List.mem_cons.mp member with rfl | later
    · exact ⟨n,same.symm,legal⟩
    · refine ih (n + 1) next (fun k inside => ?_) other later
      rcases Nat.lt_succ_iff_lt_or_eq.mp inside with earlier | rfl
      · exact legal k earlier
      · rw [same]
        exact more

theorem tokens_scanned (token : Token) (member : token ∈ tokens text) :
    ∃ k, token = Cursor.scanned text k ∧ ∀ j, j < k → ¬ (Cursor.scanned text j).kind.Last :=
  tokensFrom_scanned .start text.toList 0 rfl nofun token member

end TimePetri.Script
