import TimePetri.Proofs.Script.Glyphs

namespace TimePetri.Script

def Reading.prepend (clauses : List Clause) (reading : Reading) : Reading :=
  ⟨clauses ++ reading.clauses,reading.ending⟩

@[simp] theorem prepend_nil (reading : Reading) : reading.prepend [] = reading := rfl

@[simp] theorem prepend_prepend (first second : List Clause) (reading : Reading) :
    (reading.prepend second).prepend first = reading.prepend (first ++ second) := by
  simp [Reading.prepend]

variable {mode next : Mode} {token : Token} {clauses : List Clause} {rest : List Token} {owner : Owner} {stage : Stage}

theorem reading_step (taken : step mode token = ⟨clauses,.ok next⟩) (rest : List Token) :
    readingFrom mode (token :: rest) = (readingFrom next rest).prepend clauses := by
  rw [readingFrom,taken]
  rfl

def opens : Kind → Bool
  | .eof | .net | .transition | .place | .priority | .note => true
  | _ => false

def Opens (rest : List Token) : Prop := ∃ token more, rest = token :: more ∧ opens token.kind = true

def Undecorated (rest : List Token) : Prop :=
  ∃ token more, rest = token :: more ∧ decoration? token.kind = none ∧ token.kind ≠ .illegal

theorem opens_undecorated (opening : Opens rest) : Undecorated rest := by
  obtain ⟨token,more,rfl,here⟩ := opening
  refine ⟨token,more,rfl,?_⟩
  cases kind : token.kind with
  | eof | net | transition | place | priority | note => exact ⟨rfl,by simp⟩
  | _ => rw [kind] at here; cases here

theorem reading_same (modes : step mode token = step next token) (rest : List Token) :
    readingFrom mode (token :: rest) = readingFrom next (token :: rest) := by
  rw [readingFrom,readingFrom,modes]

theorem body_opens (owner : Owner) (stage : Stage) (opening : Opens rest) :
    readingFrom (.body owner stage) rest = readingFrom .top rest := by
  obtain ⟨token,more,rfl,here⟩ := opening
  refine reading_same ?_ more
  unfold step
  split
  · rfl
  · cases owner with
    | transition name =>
      change stepTransition name stage token = stepTop token
      unfold stepTransition
      cases kind : token.kind with
      | label | interval | arrow | ident => rw [kind] at here; cases here
      | _ => rfl
    | place name =>
      change stepPlace name stage token = stepTop token
      unfold stepPlace
      cases kind : token.kind with
      | label | marking | arrow | ident => rw [kind] at here; cases here
      | _ => rfl

theorem readingFrom_after (clause : Clause) (taken : step mode token = (step next token).after clause)
    (rest : List Token) :
    readingFrom mode (token :: rest) = (readingFrom next (token :: rest)).prepend [clause] := by
  rw [readingFrom,readingFrom,taken]
  rcases step next token with ⟨clauses,reason | mode⟩
  · rfl
  · rfl

theorem arc_undecorated (name : Token) (use : Use) (fits : arcUse owner stage .plain = .ok use)
    (undecorated : Undecorated rest) :
    readingFrom (.arc owner stage name) rest =
      (readingFrom (.body owner stage) rest).prepend [arcOf owner name.text use 1 name] := by
  obtain ⟨token,more,rfl,decoration,legal⟩ := undecorated
  refine readingFrom_after _ ?_ more
  change (if token.kind = .illegal then _ else stepArc owner stage name token) =
    Step.after _ (if token.kind = .illegal then _ else stepBody owner stage token)
  rw [if_neg legal,if_neg legal]
  unfold stepArc
  rw [decoration,fits]
  rfl

theorem lower_opens (first : List String) (order : Order) (second : List String) (some : second ≠ [])
    (opening : Opens rest) :
    readingFrom (.lower first order second) rest = (readingFrom .top rest).prepend [.priority first order second] := by
  obtain ⟨token,more,rfl,here⟩ := opening
  refine readingFrom_after _ ?_ more
  have legal : token.kind ≠ .illegal := by intro kind; rw [kind] at here; cases here
  have ident : token.kind ≠ .ident := by intro kind; rw [kind] at here; cases here
  change (if token.kind = .illegal then _ else stepLower first order second token) =
    Step.after _ (if token.kind = .illegal then _ else stepTop token)
  rw [if_neg legal,if_neg legal]
  unfold stepLower
  rw [if_neg ident,if_neg some]

theorem reading_end : readingFrom .top [glyph .eof "EOF".toList] = ⟨[],none⟩ := rfl

theorem reading_net (name : List Char) (rest : List Token) :
    readingFrom .top (glyph .net "net".toList :: glyph .ident name :: rest) =
      (readingFrom .top rest).prepend [.netName (String.ofList name)] := by
  rw [@reading_step _ .netName _ _ rfl,@reading_step _ .top _ _ rfl,prepend_prepend]
  rfl

end TimePetri.Script
