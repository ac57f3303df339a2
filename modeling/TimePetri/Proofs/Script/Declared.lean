import TimePetri.Proofs.Script.Drafts
import TimePetri.Proofs.Script.Glyphs

namespace TimePetri.Script

variable {draft later : Draft} {token : Token} {clauses : List Clause} {clause : Clause} {mode : Mode} {owner : Owner}
  {body : Body} {link : Link} {text name : String} {stage : Stage} {decoration : Decoration} {use : Use}
  {declarations : List Declaration}

theorem label_extends (fixed : token.Fixed) (kind : token.kind = .label) (named : body.stage = .named) :
    Extends (.node owner body) token [labelClause owner token.text] (.node owner ⟨some token.text,none,[],none⟩) := by
  have whole := fixed.sign kind
  rw [stage_named named]
  refine ⟨by simp [kind],?_,?_,⟨nofun,nofun,nofun⟩⟩
  · rw [whole]; simp [Draft.tokens,Body.tokens,Body.bare,linkTokens,arrowTokens,sign]
  · simp [Draft.clauses,Body.clauses,Body.bare]

theorem measure_extends (fixed : token.Fixed) (kind : token.kind = owner.measureKind)
    (early : body.stage = .named ∨ body.stage = .labelled) (readable : MeasureReadable owner token.text) :
    Extends (.node owner body) token [measureClause owner token.text]
      (.node owner ⟨body.label,some token.text,[],none⟩) := by
  have whole := fixed.sign kind
  have more : token.kind ≠ .eof := by rw [kind]; cases owner <;> simp [Owner.measureKind]
  rw [stage_early early]
  refine ⟨more,?_,?_,⟨?_,nofun,nofun⟩⟩
  · rw [whole]; simp [Draft.tokens,Body.tokens,linkTokens,arrowTokens,sign]
  · simp [Draft.clauses,Body.clauses]
  · intro other same; cases same; exact readable

theorem arrow_extends (fixed : token.Fixed) (kind : token.kind = .arrow) (before : body.stage ≠ .after)
    (readable : body.Readable owner) :
    Extends (.node owner body) token [] (.node owner { body with after := some [] }) := by
  have whole := fixed.fixed kind "->" rfl
  have none : body.after = none := by simpa using mt stage_after.mpr before
  refine ⟨by simp [kind],?_,?_,⟨readable.measure,readable.before,nofun⟩⟩
  · rw [whole]; simp [Draft.tokens,Body.tokens,none,linkTokens,arrowTokens]
  · simp [Draft.clauses,Body.clauses,none]

theorem name_extends (fixed : token.Fixed) (kind : token.kind = .ident) (readable : body.Readable owner) :
    Extends (.node owner body) token [] (.pending owner body token.text) := by
  refine ⟨by simp [kind],?_,by simp [Draft.clauses],readable⟩
  change _ ++ [sign .ident token.text] = _ ++ [token]
  rw [← fixed.sign kind]
  rfl

theorem bare_tokens (owner : Owner) : Body.bare.tokens owner = [] := rfl

theorem bare_readable (owner : Owner) : Body.bare.Readable owner := ⟨nofun,nofun,nofun⟩

theorem read_finishes {declaration : Declaration} (readable : declaration.Readable) :
    Finishes (.read declaration) [] [declaration] := by
  refine ⟨by simp [Draft.tokens],by simp [Draft.clauses],?_⟩
  intro other member
  cases List.mem_singleton.mp member
  exact readable

theorem node_finishes (readable : body.Readable owner) : Finishes (.node owner body) [] [.node owner body] := by
  refine ⟨by simp [Draft.tokens,Declaration.tokens],by simp [Draft.clauses,Declaration.clauses],?_⟩
  intro declaration member
  cases List.mem_singleton.mp member
  exact readable

theorem top_finishes (readable : body.Readable owner) (fixed : token.Fixed)
    (taken : stepTop token = ⟨clauses,.ok mode⟩) : Follows (.node owner body) token clauses mode := by
  obtain ⟨rfl,opened⟩ := top_opened fixed taken
  exact .behind _ (node_finishes readable) opened

theorem transition_follows (readable : body.Readable (.transition name)) (fixed : token.Fixed)
    (taken : stepTransition name body.stage token = ⟨clauses,.ok mode⟩) :
    Follows (.node (.transition name) body) token clauses mode := by
  unfold stepTransition at taken
  split at taken
  · next kind =>
    split at taken
    · next named => cases taken; exact .within _ rfl (label_extends fixed kind named)
    · cases taken
  · next kind =>
    split at taken
    · next early =>
      cases read : readInterval token name with
      | error reason => rw [read] at taken; cases taken
      | ok interval =>
        rw [read] at taken
        cases taken
        have same := read
        rw [fixed.sign kind] at same
        have asked : token.kind = (Owner.transition name).measureKind := kind
        have further := measure_extends fixed asked early ⟨interval,same⟩
        rw [show measureClause (.transition name) token.text = .interval name interval token by
          rw [measureClause,intervalOf_read same,← fixed.sign kind]] at further
        exact .within _ rfl further
    · cases taken
  · next kind =>
    split at taken
    · cases taken
    · next before => cases taken; exact .within _ rfl (arrow_extends fixed kind before readable)
  · next kind =>
    cases taken
    refine .within _ ?_ (name_extends fixed kind readable)
    rw [Draft.mode,← fixed.sign kind]
  · exact top_finishes readable fixed taken

theorem place_follows (readable : body.Readable (.place name)) (fixed : token.Fixed)
    (taken : stepPlace name body.stage token = ⟨clauses,.ok mode⟩) :
    Follows (.node (.place name) body) token clauses mode := by
  unfold stepPlace at taken
  split at taken
  · next kind =>
    split at taken
    · next named => cases taken; exact .within _ rfl (label_extends fixed kind named)
    · cases taken
  · next kind =>
    split at taken
    · next early =>
      cases read : readWeight token with
      | error reason => rw [read] at taken; cases taken
      | ok count =>
        rw [read] at taken
        cases taken
        have number : readNumber token.text = .ok count := mapError_ok.mp read
        have asked : token.kind = (Owner.place name).measureKind := kind
        have further := measure_extends fixed asked early ⟨count,number⟩
        rw [show measureClause (.place name) token.text = .marking name count token by
          rw [measureClause,numberOf_read number,← fixed.sign kind]] at further
        exact .within _ rfl further
    · cases taken
  · next kind =>
    split at taken
    · cases taken
    · next before => cases taken; exact .within _ rfl (arrow_extends fixed kind before readable)
  · next kind =>
    cases taken
    refine .within _ ?_ (name_extends fixed kind readable)
    rw [Draft.mode,← fixed.sign kind]
  · exact top_finishes readable fixed taken

theorem node_follows (readable : body.Readable owner) (fixed : token.Fixed)
    (taken : stepBody owner body.stage token = ⟨clauses,.ok mode⟩) : Follows (.node owner body) token clauses mode := by
  cases owner with
  | transition name => exact transition_follows readable fixed taken
  | place name => exact place_follows readable fixed taken

theorem follows_after (follows : Follows later token clauses mode) (tokens : later.tokens = draft.tokens)
    (behind : later.clauses = draft.clauses ++ [clause]) : Follows draft token (clause :: clauses) mode := by
  cases follows with
  | within next same further =>
    refine .within next same ⟨further.more,further.tokens.trans (by rw [tokens]),?_,further.readable⟩
    rw [further.clauses,behind,List.append_assoc]
    rfl
  | behind done complete opened =>
    refine .behind done ⟨complete.tokens.trans tokens,?_,complete.readable⟩ opened
    rw [complete.clauses,behind,List.append_assoc]
    rfl

theorem decoration_kind (found : decoration? token.kind = some decoration) : token.kind = decoration.kind := by
  unfold decoration? at found
  split at found
  · next kind => cases found; exact kind
  · next kind => cases found; exact kind
  · next kind => cases found; exact kind
  · cases found

theorem arcUse_side (body : Body) (fits : arcUse owner body.stage.arcs decoration = .ok use) :
    use = (if owner.takes body.after.isSome then inputUse decoration else .produce) ∧
      (owner.takes body.after.isSome = false → decoration = .plain) := by
  rw [stage_arcs] at fits
  cases owner <;> cases arrow : body.after.isSome <;> simp [arcUse,arrow,Owner.takes] at fits ⊢
  · exact fits.symm
  · cases decoration <;> simp at fits ⊢; exact fits.symm
  · cases decoration <;> simp at fits ⊢; exact fits.symm
  · exact fits.symm

theorem pending_tokens (owner : Owner) (body : Body) (link : Link) (rest : List Token)
    (same : link.tokens = sign .ident link.name :: rest) :
    (Draft.node owner (body.add link)).tokens = (Draft.pending owner body link.name).tokens ++ rest := by
  simp [Draft.tokens,add_tokens,same]

theorem pending_clauses (owner : Owner) (body : Body) (link : Link) :
    (Draft.node owner (body.add link)).clauses =
      (Draft.pending owner body link.name).clauses ++ [linkClause owner body.after.isSome link] := by
  simp [Draft.clauses,add_clauses]

theorem pending_follows (readable : body.Readable owner) (fixed : token.Fixed)
    (taken : stepArc owner body.stage.arcs (sign .ident name) token = ⟨clauses,.ok mode⟩) :
    Follows (.pending owner body name) token clauses mode := by
  unfold stepArc at taken
  split at taken
  · next decoration found =>
    have kind := decoration_kind found
    cases read : readWeight token with
    | error reason => rw [read] at taken; cases taken
    | ok weight =>
      cases fits : arcUse owner body.stage.arcs decoration with
      | error expected => rw [read,fits] at taken; cases taken
      | ok use =>
        rw [read,fits] at taken
        cases taken
        have number : readNumber token.text = .ok weight := mapError_ok.mp read
        have whole : markToken (decoration,token.text) = token := (fixed.sign kind).symm
        obtain ⟨same,plain⟩ := arcUse_side body fits
        have further : Link.Readable (owner.takes body.after.isSome) ⟨name,some (decoration,token.text)⟩ := by
          constructor
          · intro mark member; cases member; exact ⟨weight,number⟩
          · intro mark member; cases member; exact plain
        refine .within (.node owner (body.add ⟨name,some (decoration,token.text)⟩)) ?_ ⟨?_,?_,?_,add_readable readable further⟩
        · rw [Draft.mode,add_stage]
        · rw [kind]; cases decoration <;> simp [Decoration.kind]
        · exact pending_tokens _ _ _ [token] (by simp [Link.tokens,whole])
        · rw [pending_clauses]
          simp [linkClause,Link.use,Link.inputUse,Link.count,Link.token,numberOf_read number,← same,whole,sign]
  · cases fits : arcUse owner body.stage.arcs .plain with
    | error expected => rw [fits] at taken; cases taken
    | ok use =>
      obtain ⟨same,_⟩ := arcUse_side body fits
      have further : Link.Readable (owner.takes body.after.isSome) ⟨name,none⟩ := ⟨nofun,nofun⟩
      rw [fits] at taken
      cases rest : stepBody owner body.stage.arcs token with
      | mk others next =>
        rw [rest] at taken
        cases taken
        rw [← add_stage body ⟨name,none⟩] at rest
        refine follows_after (node_follows (add_readable readable further) fixed rest) ?_ ?_
        · rw [pending_tokens _ _ _ [] rfl,List.append_nil]
        · rw [pending_clauses]
          simp [linkClause,Link.use,Link.inputUse,Link.count,Link.token,← same,sign]

theorem upper_follows {names : List String} (fixed : token.Fixed)
    (taken : stepUpper names token = ⟨clauses,.ok mode⟩) : Follows (.upper names) token clauses mode := by
  have operator : ∀ order : Order, token = order.token → stepUpper.operator names token order = ⟨clauses,.ok mode⟩ →
      Follows (.upper names) token clauses mode := by
    intro order whole taken
    unfold stepUpper.operator at taken
    split at taken
    · cases taken
    · cases taken
      refine .within (.lower names order []) rfl ⟨?_,?_,?_,trivial⟩
      · rw [whole]; cases order <;> simp [Order.token,sign]
      · simp [Draft.tokens,whole]
      · simp [Draft.clauses]
  unfold stepUpper at taken
  split at taken
  · next kind =>
    cases taken
    have whole := fixed.sign kind
    refine .within (.upper (names ++ [token.text])) rfl ⟨by simp [kind],?_,?_,trivial⟩
    · simp [Draft.tokens,← whole]
    · simp [Draft.clauses,mentionClause,← whole]
  · next kind => exact operator .above (fixed.fixed kind ">" rfl) taken
  · next kind => exact operator .below (fixed.fixed kind "<" rfl) taken
  · cases taken

theorem lower_follows {first second : List String} {order : Order} (fixed : token.Fixed)
    (taken : stepLower first order second token = ⟨clauses,.ok mode⟩) :
    Follows (.lower first order second) token clauses mode := by
  unfold stepLower at taken
  split at taken
  · next kind =>
    cases taken
    have whole := fixed.sign kind
    refine .within (.lower first order (second ++ [token.text])) rfl ⟨by simp [kind],?_,?_,trivial⟩
    · simp [Draft.tokens,← whole]
    · simp [Draft.clauses,mentionClause,← whole]
  · split at taken
    · cases taken
    · cases top : stepTop token with
      | mk others next =>
        rw [top] at taken
        cases taken
        obtain ⟨rfl,opened⟩ := top_opened fixed top
        refine .behind [.priority first order second] ⟨?_,?_,?_⟩ opened
        · simp [Declaration.tokens,Draft.tokens]
        · simp [Declaration.clauses,Draft.clauses]
        · intro declaration member; cases List.mem_singleton.mp member; trivial

theorem expecting_ok {kind : Kind} {expected : Expectation} {next : String → Step}
    (taken : expecting kind expected next token = ⟨clauses,.ok mode⟩) :
    token.kind = kind ∧ next token.text = ⟨clauses,.ok mode⟩ := by
  unfold expecting at taken
  split at taken
  · next same => exact ⟨same,taken⟩
  · cases taken

theorem step_follows (draft : Draft) (readable : draft.Readable) (fixed : token.Fixed)
    (taken : step draft.mode token = ⟨clauses,.ok mode⟩) : Follows draft token clauses mode := by
  unfold step at taken
  split at taken
  · cases taken
  -- By where the draft stands, which says what tokens do not break the text off.
  · cases draft with
    | top =>
      obtain ⟨rfl,opened⟩ := top_opened fixed taken
      exact .behind [] ⟨rfl,rfl,nofun⟩ opened
    | read declaration =>
      obtain ⟨rfl,opened⟩ := top_opened fixed taken
      exact .behind [declaration] (read_finishes readable) opened
    | net =>
      obtain ⟨kind,emitted⟩ := expecting_ok taken
      cases emitted
      exact .within (.read (.net token.text)) rfl
        ⟨by simp [kind],by simp [Draft.tokens,Declaration.tokens,← fixed.sign kind],rfl,trivial⟩
    | transition =>
      obtain ⟨kind,emitted⟩ := expecting_ok taken
      cases emitted
      exact .within (.node (.transition token.text) .bare) rfl
        ⟨by simp [kind],by simp [Draft.tokens,Owner.opening,bare_tokens,← fixed.sign kind],rfl,bare_readable _⟩
    | place =>
      obtain ⟨kind,emitted⟩ := expecting_ok taken
      cases emitted
      exact .within (.node (.place token.text) .bare) rfl
        ⟨by simp [kind],by simp [Draft.tokens,Owner.opening,bare_tokens,← fixed.sign kind],rfl,bare_readable _⟩
    | node owner body => exact node_follows readable fixed taken
    | pending owner body name => exact pending_follows readable fixed taken
    | upper names => exact upper_follows fixed taken
    | lower first order second => exact lower_follows fixed taken
    | note =>
      obtain ⟨kind,moved⟩ := expecting_ok taken
      cases moved
      exact .within (.noteName token.text) rfl ⟨by simp [kind],by simp [Draft.tokens,← fixed.sign kind],rfl,trivial⟩
    | noteName name =>
      obtain ⟨kind,moved⟩ := expecting_ok taken
      cases moved
      exact .within (.noteLevel name token.text) rfl ⟨by simp [kind],by simp [Draft.tokens,← fixed.sign kind],rfl,trivial⟩
    | noteLevel name level =>
      obtain ⟨kind,emitted⟩ := expecting_ok taken
      cases emitted
      exact .within (.read (.note name level token.text)) rfl
        ⟨by simp [kind],by simp [Draft.tokens,Declaration.tokens,← fixed.sign kind],rfl,trivial⟩

end TimePetri.Script
