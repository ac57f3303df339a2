import Mathlib
import TimePetri.Proofs.Net.Overflow
import TimePetri.Proofs.Reader.Declarations
import TimePetri.Proofs.Script.Stream

namespace TimePetri

open Script

namespace Reader

theorem take_shorter (r : Reader) (more : r.take.1.kind ≠ .eof) : r.take.2.rest.length < r.rest.length :=
  lex_shorter r.rest more

end Reader

theorem tokens_bound (text : String) : ∀ token ∈ tokens text,
    token.position.line ≤ text.length + 1 ∧ token.position.column ≤ text.length + 1 := by
  intro token member
  have bound := tokensFrom_bound .start text.toList token member
  rw [String.length_toList] at bound
  change token.position.line ≤ 1 + _ ∧ token.position.column ≤ 1 + _ at bound
  omega

-- The sums that are reported are those that the net keeps, as in `Exceeds`. The total of
-- the output weights of a transition is formed by rendering alone and can fail there.
theorem readInPlace_safe (strict : Bool) (text : String) :
    (∃ scanned, scanned ≤ text.length + 1 ∧
      match (Net.parse strict text).value with
      | .ok net => readInPlace strict text = .ok (net,scanned)
      | .error reason => readInPlace strict text = .error (.refused reason scanned) ∧ reason.Genuine) ∧
    (∀ r : Reader, r.take.1.kind ≠ .eof → r.take.2.rest.length < r.rest.length) ∧
    (∀ token ∈ tokens text, token.position.line ≤ text.length + 1 ∧ token.position.column ≤ text.length + 1) ∧
    ∀ before clause after net, (readingOf text).clauses = before ++ clause :: after →
      before.foldlM (Net.apply strict) .empty = .ok net → Exceeds (before ++ [clause]) →
        ∃ token, clause.token? = some token ∧
          (Net.parse strict text).value = .error (.number token (.overflow token.text)) := by
  refine ⟨?_,fun r => r.take_shorter,tokens_bound text,fun before clause after net => Net.parse_exceeds⟩
  have ends := readInPlace_ends strict text
  have genuine := Net.parse_genuine strict text
  cases read : readInPlace strict text with
  | ok answer =>
    obtain ⟨net,scanned⟩ := answer
    rw [read] at ends
    obtain ⟨parsed,count⟩ := ends
    refine ⟨scanned,count,?_⟩
    rw [parsed]
  | error halt =>
    rw [read] at ends
    cases halt with
    | refused reason scanned =>
      obtain ⟨parsed,count⟩ := ends
      refine ⟨scanned,count,?_⟩
      rw [parsed]
      exact ⟨rfl,genuine reason parsed⟩
    | panicked cause => exact ends.elim

-- Two markings of one place, each of which would fit alone.
def heapedText : String := "pl p (5E)\npl p (5E)"

def heapedMark (line : Nat) : Token := ⟨.marking,"5E",⟨line,6⟩⟩

def heapedClauses : List Clause := [.place "p",.marking "p" 5000000000000000000 (heapedMark 1),.place "p"]

theorem readInPlace_safe_heaped : ∃ scanned, scanned ≤ 20 ∧
    readInPlace false heapedText = .error (.refused (.number (heapedMark 2) (.overflow "5E")) scanned) := by
  obtain ⟨⟨scanned,count,answer⟩,_,_,exceeds⟩ := readInPlace_safe false heapedText
  have split : (readingOf heapedText).clauses = heapedClauses ++ .marking "p" 5000000000000000000 (heapedMark 2) :: [] := by cbv
  have applied : heapedClauses.foldlM (Net.apply false) .empty =
      .ok ⟨"",#["p"],#[""],#[],#[],#[],#[],#[],#[],#[],Marking.empty.set 0 5000000000000000000,#[]⟩ := by cbv
  have short : Exceeds (heapedClauses ++ [.marking "p" 5000000000000000000 (heapedMark 2)]) := ⟨"p","",.inr (by decide)⟩
  obtain ⟨token,same,refused⟩ := exceeds _ _ _ _ split applied short
  cases same
  rw [refused] at answer
  exact ⟨scanned,count,answer.1⟩

end TimePetri
