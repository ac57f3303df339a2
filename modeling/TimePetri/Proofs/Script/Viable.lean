import TimePetri.Proofs.Script.Passes
import TimePetri.Proofs.Script.Phrases

namespace TimePetri.Script

open RegularExpression (char)

-- A token leads on where some kinds of tokens may follow it, and those follow it then. It
-- is not expected where nothing may follow it. The end of a text is followed by nothing.
structure Step.Suits (token : Token) (ahead : Language Kind) (taken : Step) : Prop where
  fits : ∀ next, taken.next = .ok next → ahead = if token.kind = .eof then 1 else next.rest
  refused : ∀ expected, taken.next = .error (.unexpected expected token) → ahead = 0

variable {mode next last : Mode} {token : Token} {taken : Step} {clause : Clause} {clauses : List Clause}
  {front rest : List Token} {owner : Owner} {stage : Stage} {reason : ParseError} {later : Language Kind}

theorem moveTo_suits (more : token.kind ≠ .eof) (same : later = mode.rest) : (moveTo mode).Suits token later :=
  ⟨fun next leads => (by cases leads; rw [if_neg more,same]),fun expected stops => by cases stops⟩

theorem emit_suits (more : token.kind ≠ .eof) (same : later = mode.rest) : (emit clause mode).Suits token later :=
  ⟨(moveTo_suits more same).fits,(moveTo_suits more same).refused⟩

theorem stop_suits (none : later = 0) (reason : ParseError) : (stop reason).Suits token later :=
  ⟨fun next leads => (by cases leads),fun _ _ => none⟩

theorem after_suits (rest : taken.Suits token later) : (taken.after clause).Suits token later := ⟨rest.fits,rest.refused⟩

-- A number or an interval that cannot be read was expected all the same.
def Unread (reason : ParseError) : Prop := ∀ expected token, reason ≠ .unexpected expected token

theorem unread_suits (unread : Unread reason) : (stop reason).Suits token later :=
  ⟨fun next leads => (by cases leads),fun expected stops => by cases stops; exact absurd rfl (unread expected token)⟩

theorem expecting_suits {kind : Kind} {expected : Expectation} {further : String → Step} (more : kind ≠ .eof)
    (leads : (further token.text).next = .ok next) (same : later = if token.kind = kind then next.rest else 0) :
    (expecting kind expected further token).Suits token later := by
  unfold expecting
  by_cases fits : token.kind = kind
  · rw [if_pos fits] at same ⊢
    refine ⟨fun mode goes => ?_,fun other stops => by rw [leads] at stops; cases stops⟩
    rw [leads] at goes
    cases goes
    rw [if_neg (fits ▸ more),same]
  · rw [if_neg fits] at same ⊢
    exact stop_suits same _

theorem lexical_unread (token : Token) : Unread (.lexical token) := fun _ _ => nofun

theorem readWeight_unread (token : Token) : FailsAs Unread (readWeight token) := fails_mapError _ _ fun _ _ _ => nofun

theorem readInterval_unread (token : Token) (name : String) : FailsAs Unread (readInterval token name) := by
  unfold readInterval
  split
  · exact fails_error (lexical_unread token)
  · exact fails_mapError _ _ fun _ _ _ => nofun

theorem stepTop_suits (token : Token) : (stepTop token).Suits token (ahead sentence token.kind) := by
  unfold stepTop
  split
  · next kind => exact ⟨fun next leads => (by simp [sentence_ahead,kind]),fun expected stops => by cases stops⟩
  case h_7 end' net transition place priority note =>
    refine stop_suits ?_ _
    rw [sentence_ahead,if_neg net,if_neg transition,if_neg place,if_neg priority,if_neg note,if_neg end']
    simp
  all_goals next kind => exact moveTo_suits (by simp [kind]) (by simp [sentence_ahead,kind])

theorem stepTransition_suits (name : String) (stage : Stage) (token : Token) :
    (stepTransition name stage token).Suits token (ahead ((Owner.transition name).rest stage * sentence) token.kind) := by
  unfold stepTransition
  split
  · next kind =>
    rw [kind,label_ahead]
    split
    · exact emit_suits (by simp [kind]) rfl
    · exact stop_suits rfl _
  · next kind =>
    have measured : ahead ((Owner.transition name).rest stage * sentence) .interval = _ :=
      measure_ahead (.transition name) stage
    rw [kind,measured]
    split
    · cases read : readInterval token name with
      | error reason => exact unread_suits (readInterval_unread token name reason read)
      | ok interval => exact emit_suits (by simp [kind]) rfl
    · exact stop_suits rfl _
  · next kind =>
    rw [kind,arrow_ahead]
    split
    · exact stop_suits rfl _
    · exact moveTo_suits (by simp [kind]) rfl
  · next kind =>
    rw [kind,ident_ahead _ _ token]
    exact moveTo_suits (by simp [kind]) rfl
  · next label measure arrow ident =>
    rw [closed_ahead (.transition name) _ label measure ident arrow]
    exact stepTop_suits token

theorem stepPlace_suits (name : String) (stage : Stage) (token : Token) :
    (stepPlace name stage token).Suits token (ahead ((Owner.place name).rest stage * sentence) token.kind) := by
  unfold stepPlace
  split
  · next kind =>
    rw [kind,label_ahead]
    split
    · exact emit_suits (by simp [kind]) rfl
    · exact stop_suits rfl _
  · next kind =>
    have measured : ahead ((Owner.place name).rest stage * sentence) .marking = _ :=
      measure_ahead (.place name) stage
    rw [kind,measured]
    split
    · cases read : readWeight token with
      | error reason => exact unread_suits (readWeight_unread token reason read)
      | ok count => exact emit_suits (by simp [kind]) rfl
    · exact stop_suits rfl _
  · next kind =>
    rw [kind,arrow_ahead]
    split
    · exact stop_suits rfl _
    · exact moveTo_suits (by simp [kind]) rfl
  · next kind =>
    rw [kind,ident_ahead _ _ token]
    exact moveTo_suits (by simp [kind]) rfl
  · next label measure arrow ident =>
    rw [closed_ahead (.place name) _ label measure ident arrow]
    exact stepTop_suits token

theorem stepBody_suits (owner : Owner) (stage : Stage) (token : Token) :
    (stepBody owner stage token).Suits token (ahead (owner.rest stage * sentence) token.kind) := by
  cases owner with
  | transition name => exact stepTransition_suits name stage token
  | place name => exact stepPlace_suits name stage token

theorem arcUse_takes (owner : Owner) (stage : Stage) (decoration : Decoration) :
    (∃ use, arcUse owner stage decoration = .ok use) ↔ decoration = .plain ∨ owner.takes (stage = .after) := by
  cases owner <;> cases stage <;> cases decoration <;> simp [arcUse,Owner.takes]

-- A weight is read before it is known whether its decoration fits.
theorem stepArc_suits (owner : Owner) (stage : Stage) (name token : Token) :
    (stepArc owner stage name token).Suits token (ahead ((Mode.arc owner stage name).phrase * sentence) token.kind) := by
  unfold stepArc
  split
  · next decoration decorated =>
    have fits := arcUse_takes owner stage decoration
    have more : token.kind ≠ .eof := fun ends => by rw [ends] at decorated; cases decorated
    rw [decorated_ahead owner stage name decorated]
    cases read : readWeight token with
    | error reason => exact unread_suits (readWeight_unread token reason read)
    | ok weight =>
      cases side : arcUse owner stage decoration with
      | error expected =>
        rw [if_neg fun takes => by simp [side] at fits; exact takes.elim fits.1 (by simp [fits.2])]
        exact stop_suits rfl _
      | ok use =>
        rw [if_pos (fits.mp ⟨use,side⟩)]
        exact emit_suits more rfl
  · next bare =>
    obtain ⟨use,fits⟩ := arcUse_plain owner stage
    rw [fits,bare_ahead owner stage name bare]
    exact after_suits (stepBody_suits owner stage token)

theorem stepUpper_suits (first : List String) (token : Token) :
    (stepUpper first token).Suits token (ahead ((Mode.upper first).phrase * sentence) token.kind) := by
  have operator (order : Order) (kind : token.kind = .gt ∨ token.kind = .lt) :
      (stepUpper.operator first token order).Suits token (ahead ((Mode.upper first).phrase * sentence) token.kind) := by
    have more : token.kind ≠ .ident ∧ token.kind ≠ .eof := by rcases kind with kind | kind <;> simp [kind]
    rw [upper_ahead first order,if_neg more.1,zero_add]
    unfold stepUpper.operator
    by_cases none : first = []
    · rw [if_pos none,if_neg fun both => both.1 none]
      exact stop_suits rfl _
    · rw [if_neg none,if_pos ⟨none,kind⟩]
      exact moveTo_suits more.2 rfl
  unfold stepUpper
  split
  · next kind =>
    refine emit_suits (by simp [kind]) ?_
    rw [upper_ahead first .above,kind]
    simp [Mode.rest,Mode.phrase]
  · next kind => exact operator .above (.inl kind)
  · next kind => exact operator .below (.inr kind)
  · next ident gt lt =>
    rw [upper_ahead first .above,if_neg ident,if_neg fun both => both.2.elim gt lt,zero_add]
    exact stop_suits rfl _

theorem stepLower_suits (first : List String) (order : Order) (second : List String) (token : Token) :
    (stepLower first order second token).Suits token
      (ahead ((Mode.lower first order second).phrase * sentence) token.kind) := by
  rw [lower_ahead]
  unfold stepLower
  split
  · next kind => exact emit_suits (by simp [kind]) (by simp [kind,sentence_ahead,Mode.rest,Mode.phrase])
  · next other =>
    rw [zero_add]
    by_cases none : second = []
    · rw [if_pos none,if_neg fun some => some none]
      exact stop_suits rfl _
    · rw [if_neg none,if_pos none]
      exact after_suits (stepTop_suits token)

theorem step_suits (mode : Mode) (token : Token) :
    (step mode token).Suits token (ahead (mode.phrase * sentence) token.kind) := by
  have ident : Kind.ident ≠ .eof := by decide
  have int : Kind.int ≠ .eof := by decide
  have name (kind : Kind) : ahead (char .ident * sentence) kind = if kind = .ident then Mode.top.rest else 0 := by
    rw [ahead_char_mul,Mode.rest]
    simp [Mode.phrase]
  unfold Script.step
  split
  · exact unread_suits (lexical_unread token)
  · cases mode with
    | top =>
      rw [Mode.phrase,ahead_same (by simp : (1 * sentence).matches' = sentence.matches')]
      exact stepTop_suits token
    | netName => exact expecting_suits ident rfl (name _)
    | transitionName => exact expecting_suits ident rfl (ahead_char_then _ _ _)
    | placeName => exact expecting_suits ident rfl (ahead_char_then _ _ _)
    | body owner stage => exact stepBody_suits owner stage token
    | arc owner stage name => exact stepArc_suits owner stage name token
    | upper first => exact stepUpper_suits first token
    | lower first order second => exact stepLower_suits first order second token
    | noteName => exact expecting_suits ident rfl (ahead_char_then _ _ _)
    | noteLevel => exact expecting_suits int rfl (ahead_char_then _ _ _)
    | noteText => exact expecting_suits ident rfl (name _)

theorem passes_exact (passes : Passes mode front clauses last) (more : ∀ token ∈ front, token.kind ≠ .eof)
    (kinds : List Kind) : front.map Token.kind ++ kinds ∈ mode.rest ↔ kinds ∈ last.rest := by
  induction passes with
  | none mode => rfl
  | one taken further ih =>
    rename_i mode next last token rest clauses later
    -- A token that leads on takes the derivative of what may still stand in the text.
    have here := (step_suits mode token).fits next (by rw [taken])
    rw [if_neg (more token (by simp))] at here
    rw [List.map_cons,List.cons_append,Mode.rest,ahead_exact,here]
    exact ih fun other member => more other (List.mem_cons_of_mem _ member)

theorem phrase_completed (mode : Mode) : ∃ kinds, kinds ∈ mode.phrase.matches' := by
  have found {pattern : Pattern} (kinds : List Kind) (fits : pattern.rmatch kinds = true) :
      ∃ kinds, kinds ∈ pattern.matches' :=
    ⟨kinds,(RegularExpression.rmatch_iff_matches' _ _).mp fits⟩
  cases mode with
  | top => exact found [] rfl
  | netName => exact found [.ident] rfl
  | transitionName => exact found [.ident] rfl
  | placeName => exact found [.ident] rfl
  | body owner stage => exact found [] (by cases owner <;> cases stage <;> rfl)
  | arc owner stage name => exact found [] (by cases owner <;> cases stage <;> rfl)
  | upper first => exact found [.ident,.gt,.ident] (by cases first <;> rfl)
  | lower first order second => exact found [.ident] (by cases second <;> rfl)
  | noteName => exact found [.ident,.int,.ident] rfl
  | noteLevel => exact found [.int,.ident] rfl
  | noteText => exact found [.ident] rfl

theorem rest_viable (mode : Mode) : ∃ kinds, kinds ∈ mode.rest := by
  obtain ⟨kinds,completes⟩ := phrase_completed mode
  have ends : [Kind.eof] ∈ sentence.matches' := (RegularExpression.rmatch_iff_matches' _ _).mp rfl
  exact ⟨kinds ++ [.eof],Language.append_mem_mul completes ends⟩

theorem rest_top (kinds : List Kind) : kinds ∈ Mode.top.rest ↔ kinds ∈ sentence.matches' := by
  simp [Mode.rest,Mode.phrase]

theorem passes_viable (passes : Passes .top front clauses last) (more : ∀ token ∈ front, token.kind ≠ .eof) :
    Viable (front.map Token.kind) := by
  obtain ⟨kinds,fits⟩ := rest_viable last
  exact ⟨kinds,(rest_top _).mp ((passes_exact passes more kinds).mpr fits)⟩

theorem unexpected_exact {expected : Expectation} (passes : Passes .top front clauses last)
    (more : ∀ token ∈ front, token.kind ≠ .eof) (stops : (step last token).next = .error (.unexpected expected token))
    (kinds : List Kind) : front.map Token.kind ++ token.kind :: kinds ∉ sentence.matches' := by
  intro sentence
  have behind := (passes_exact passes more _).mp ((rest_top _).mpr sentence)
  rw [Mode.rest,ahead_exact,(step_suits last token).refused expected stops] at behind
  exact behind

end TimePetri.Script
