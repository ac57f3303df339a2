import TimePetri.Proofs.Script.Declared
import TimePetri.Proofs.Script.Unambiguous
import TimePetri.Proofs.Script.Unplaced

namespace TimePetri

namespace Script

-- The text is the list of declarations, without the blanks and comments between them.
def Spells (declarations : List Declaration) (text : String) : Prop :=
  (tokens text).map Token.unplaced = declarations.flatMap Declaration.tokens ++ [sign .eof "EOF"]

structure Covers (declarations : List Declaration) (tokens : List Token) (clauses : List Clause) : Prop where
  tokens : declarations.flatMap Declaration.tokens ++ [sign .eof "EOF"] = tokens
  clauses : declarations.flatMap Declaration.clauses = clauses
  readable : ∀ declaration ∈ declarations, declaration.Readable

variable {draft : Draft} {token last : Token} {clauses later : List Clause} {mode : Mode}
  {declarations others done : List Declaration} {text : String}

theorem readingFrom_cons {tail : List Token} (read : readingFrom mode (token :: tail) = ⟨clauses,none⟩) :
    ∃ first middle later, step mode token = ⟨first,.ok middle⟩ ∧ readingFrom middle tail = ⟨later,none⟩ ∧
      clauses = first ++ later := by
  unfold readingFrom at read
  cases taken : step mode token with
  | mk first next =>
    cases next with
    | error reason => rw [taken] at read; cases read
    | ok middle =>
      rw [taken] at read
      dsimp only at read
      cases rest : readingFrom middle tail with
      | mk later ending => rw [rest] at read; cases read; exact ⟨first,middle,later,rfl,rest,rfl⟩

theorem step_legal {first : List Clause} {middle : Mode} (taken : step mode token = ⟨first,.ok middle⟩) :
    token.kind ≠ .illegal := by
  intro illegal
  unfold Script.step at taken
  rw [if_pos illegal] at taken
  cases taken

theorem finishes_covers {tail : List Token} (complete : Finishes draft clauses done)
    (covers : Covers declarations tail later) :
    Covers (done ++ declarations) (draft.tokens ++ tail) (draft.clauses ++ (clauses ++ later)) := by
  constructor
  case tokens => rw [List.flatMap_append,complete.tokens,List.append_assoc,covers.tokens]
  case clauses => rw [List.flatMap_append,complete.clauses,covers.clauses,List.append_assoc]
  case readable =>
    intro declaration member
    rcases List.mem_append.mp member with old | new
    · exact complete.readable declaration old
    · exact covers.readable declaration new

theorem readingFrom_covers (front : List Token) (ends : last.kind.Last) (legal : ∀ token ∈ front, ¬ token.kind.Last)
    (fixed : ∀ token ∈ front ++ [last], token.Fixed) (draft : Draft) (readable : draft.Readable)
    (read : readingFrom draft.mode (front ++ [last]) = ⟨clauses,none⟩) :
    ∃ declarations, Covers declarations (draft.tokens ++ (front ++ [last])) (draft.clauses ++ clauses) := by
  -- The draft is kept open: a token extends it, or finishes it and opens the next one.
  induction front generalizing draft clauses with
  | nil =>
    obtain ⟨first,middle,later,taken,rest,rfl⟩ := readingFrom_cons read
    cases rest
    have lastFixed := fixed last (by simp)
    have eof : last.kind = .eof := ends.resolve_right (step_legal taken)
    cases step_follows draft readable lastFixed taken with
    | within next same further => exact absurd eof further.more
    | behind done complete opened =>
      refine ⟨done ++ [],finishes_covers complete ⟨?_,rfl,nofun⟩⟩
      rw [lastFixed.fixed eof "EOF" rfl]
      rfl
  | cons token tail ih =>
    obtain ⟨first,middle,later,taken,rest,rfl⟩ := readingFrom_cons read
    have tailLegal : ∀ other ∈ tail, ¬ other.kind.Last := fun other member => legal other (List.mem_cons_of_mem _ member)
    have tailFixed : ∀ other ∈ tail ++ [last], other.Fixed :=
      fun other member => fixed other (List.mem_cons_of_mem _ member)
    cases step_follows draft readable (fixed token (by simp)) taken with
    | within next same extended =>
      obtain ⟨declarations,covers⟩ := ih tailLegal tailFixed next extended.readable (same ▸ rest)
      refine ⟨declarations,?_⟩
      rw [extended.tokens,extended.clauses] at covers
      simpa using covers
    | behind done complete opened =>
      rcases opened with eof | ⟨next,same,extended⟩
      · exact absurd (.inl eof) (legal token (by simp))
      · obtain ⟨declarations,covers⟩ := ih tailLegal tailFixed next extended.readable (same ▸ rest)
        rw [extended.tokens,extended.clauses] at covers
        exact ⟨done ++ declarations,finishes_covers complete covers⟩

theorem spells_unique (first : Spells declarations text) (second : Spells others text) : declarations = others :=
  declarations_unique declarations others (first.symm.trans second)

theorem readingOf_spells (complete : (readingOf text).ending = none) : ∃ declarations, Spells declarations text ∧
    (∀ declaration ∈ declarations, declaration.Readable) ∧
    (readingOf text).unplaced = ⟨declarations.flatMap Declaration.clauses,none⟩ := by
  obtain ⟨front,last,same,ends,legal,_⟩ := tokensFrom_shape .start text.toList
  have whole : (tokens text).map Token.unplaced = front.map Token.unplaced ++ [last.unplaced] := by
    rw [tokens,same,List.map_append]
    rfl
  have reading : readingFrom .top (front.map Token.unplaced ++ [last.unplaced]) =
      ⟨(readingOf text).unplaced.clauses,none⟩ := by
    rw [← whole]
    refine (readingFrom_unplaced .top (tokens text)).trans ?_
    change (readingOf text).unplaced = _
    simp [Reading.unplaced,complete]
  have lastEnds : last.unplaced.kind.Last := ends
  obtain ⟨declarations,covers⟩ := readingFrom_covers (front.map Token.unplaced) lastEnds
    (fun token member => by obtain ⟨placed,inFront,rfl⟩ := List.mem_map.mp member; exact legal placed inFront)
    (fun token member => unplaced_fixed (whole ▸ member)) .top trivial reading
  refine ⟨declarations,?_,covers.readable,?_⟩
  · rw [Spells,whole,covers.tokens]
    rfl
  · rw [covers.clauses]
    simp [Reading.unplaced,complete,Draft.clauses]

end Script

end TimePetri
