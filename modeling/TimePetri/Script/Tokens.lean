import TimePetri.Script.LexemeSource

namespace TimePetri.Script

theorem trivia_length (inComment : Bool) (cs : List Char) : (trivia inComment cs).2.length ≤ cs.length := by
  have whole := congrArg List.length (trivia_source inComment cs)
  rw [List.length_append] at whole
  omega

theorem lex_shorter (cs : List Char) (more : (lex cs).kind ≠ .eof) : (lex cs).rest.length < cs.length := by
  have bound := trivia_length false cs
  unfold lex at more ⊢
  dsimp only at more ⊢
  generalize (trivia false cs).2 = left at more bound ⊢
  cases left with
  | nil => exact absurd rfl more
  | cons c rest => exact Nat.lt_of_le_of_lt (lexMark_rest c rest) bound

-- The tokens of a text, each with its place in it. They end at the end of the text
-- or at the first token that is illegal.
def tokensFrom (here : Position) (cs : List Char) : List Token :=
  let lexeme := lex cs
  let start := here.after lexeme.lead
  let token : Token := ⟨lexeme.kind,String.ofList lexeme.shown,start⟩
  if _ : lexeme.kind = .eof ∨ lexeme.kind = .illegal then [token]
  else token :: tokensFrom (start.after lexeme.body) lexeme.rest
termination_by cs.length
decreasing_by
  rename_i continues
  exact lex_shorter cs fun ends => continues (Or.inl ends)

def tokens (text : String) : List Token := tokensFrom .start text.toList

end TimePetri.Script
