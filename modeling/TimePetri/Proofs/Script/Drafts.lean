import TimePetri.Proofs.Script.Numbers
import TimePetri.Proofs.Script.Stream

namespace TimePetri.Script

def numberOf (text : String) : Int64 := (readNumber text).toOption.getD 0

def intervalOf (text name : String) : Interval :=
  (readInterval (sign .interval text) name).toOption.getD .unconstrained

-- Whether the links on this side of the arrow lead into a transition.
def Owner.takes (after : Bool) : Owner → Bool
  | .transition _ => !after
  | .place _ => after

def Link.use (takes : Bool) (link : Link) : Use := if takes then link.inputUse else .produce

def Link.count (link : Link) : Int64 := link.mark.elim 1 fun mark => numberOf mark.2

def Link.token (link : Link) : Token := link.mark.elim (sign .ident link.name) markToken

def linkClause (owner : Owner) (after : Bool) (link : Link) : Clause :=
  arcOf owner link.name (link.use (owner.takes after)) link.count link.token

def Owner.clause : Owner → Clause
  | .transition name => .transition name
  | .place name => .place name

def labelClause : Owner → String → Clause
  | .transition name, label => .transitionLabel name label
  | .place name, label => .placeLabel name label

def measureClause : Owner → String → Clause
  | .transition name, text => .interval name (intervalOf text name) (sign .interval text)
  | .place name, text => .marking name (numberOf text) (sign .marking text)

def mentionClause (name : String) : Clause := .mention (sign .ident name)

def Body.clauses (owner : Owner) (body : Body) : List Clause :=
  body.label.toList.map (labelClause owner) ++ body.measure.toList.map (measureClause owner) ++
    body.before.map (linkClause owner false) ++ (body.after.getD []).map (linkClause owner true)

def Declaration.clauses : Declaration → List Clause
  | .net name => [.netName name]
  | .node owner body => owner.clause :: body.clauses owner
  | .priority first order second => (first ++ second).map mentionClause ++ [.priority first order second]
  | .note _ _ text => [.note text]

-- Numbers that fit, intervals that hold something, and no decoration but a weight on
-- what leads out of a transition.
structure Link.Readable (takes : Bool) (link : Link) : Prop where
  number : ∀ mark ∈ link.mark, ∃ w, readNumber mark.2 = .ok w
  plain : ∀ mark ∈ link.mark, takes = false → mark.1 = .plain

def MeasureReadable : Owner → String → Prop
  | .transition name, text => ∃ interval, readInterval (sign .interval text) name = .ok interval
  | .place _, text => ∃ w, readNumber text = .ok w

structure Body.Readable (owner : Owner) (body : Body) : Prop where
  measure : ∀ text ∈ body.measure, MeasureReadable owner text
  before : ∀ link ∈ body.before, link.Readable (owner.takes false)
  after : ∀ link ∈ body.after.getD [], link.Readable (owner.takes true)

def Declaration.Readable : Declaration → Prop
  | .node owner body => body.Readable owner
  | _ => True

-- What has been read since the last declaration that is known to be over.
inductive Draft where
  | top
  | read (declaration : Declaration)
  | net
  | transition
  | place
  | node (owner : Owner) (body : Body)
  | pending (owner : Owner) (body : Body) (name : String)
  | upper (names : List String)
  | lower (first : List String) (order : Order) (second : List String)
  | note
  | noteName (name : String)
  | noteLevel (name level : String)

def Body.stage : Body → Stage
  | ⟨_,_,_,some _⟩ => .after
  | ⟨_,_,_ :: _,none⟩ => .before
  | ⟨_,some _,[],none⟩ => .measured
  | ⟨some _,none,[],none⟩ => .labelled
  | ⟨none,none,[],none⟩ => .named

def Body.bare : Body := ⟨none,none,[],none⟩

def Body.add (body : Body) (link : Link) : Body :=
  match body.after with
  | none => { body with before := body.before ++ [link] }
  | some links => { body with after := some (links ++ [link]) }

def Draft.mode : Draft → Mode
  | .top => .top
  | .read _ => .top
  | .net => .netName
  | .transition => .transitionName
  | .place => .placeName
  | .node owner body => .body owner body.stage
  | .pending owner body name => .arc owner body.stage.arcs (sign .ident name)
  | .upper names => .upper names
  | .lower first order second => .lower first order second
  | .note => .noteName
  | .noteName _ => .noteLevel
  | .noteLevel _ _ => .noteText

def Draft.tokens : Draft → List Token
  | .top => []
  | .read declaration => declaration.tokens
  | .net => [sign .net "net"]
  | .transition => [sign .transition "tr"]
  | .place => [sign .place "pl"]
  | .node owner body => owner.opening ++ body.tokens owner
  | .pending owner body name => owner.opening ++ body.tokens owner ++ [sign .ident name]
  | .upper names => sign .priority "pr" :: names.map (sign .ident)
  | .lower first order second =>
    sign .priority "pr" :: (first.map (sign .ident) ++ order.token :: second.map (sign .ident))
  | .note => [sign .note "nt"]
  | .noteName name => [sign .note "nt",sign .ident name]
  | .noteLevel name level => [sign .note "nt",sign .ident name,sign .int level]

def Draft.clauses : Draft → List Clause
  | .read declaration => declaration.clauses
  | .node owner body => owner.clause :: body.clauses owner
  | .pending owner body _ => owner.clause :: body.clauses owner
  | .upper names => names.map mentionClause
  | .lower first _ second => (first ++ second).map mentionClause
  | _ => []

def Draft.Readable : Draft → Prop
  | .read declaration => declaration.Readable
  | .node owner body => body.Readable owner
  | .pending owner body _ => body.Readable owner
  | _ => True

structure Extends (draft : Draft) (token : Token) (clauses : List Clause) (next : Draft) : Prop where
  more : token.kind ≠ .eof
  tokens : next.tokens = draft.tokens ++ [token]
  clauses : next.clauses = draft.clauses ++ clauses
  readable : next.Readable

-- The declaration at hand needs no further token, and is read as some more clauses.
structure Finishes (draft : Draft) (clauses : List Clause) (done : List Declaration) : Prop where
  tokens : done.flatMap Declaration.tokens = draft.tokens
  clauses : done.flatMap Declaration.clauses = draft.clauses ++ clauses
  readable : ∀ declaration ∈ done, declaration.Readable

def Opened (token : Token) (mode : Mode) : Prop := token.kind = .eof ∨ ∃ next, next.mode = mode ∧ Extends .top token [] next

inductive Follows (draft : Draft) (token : Token) (clauses : List Clause) (mode : Mode) : Prop where
  | within (next : Draft) (same : next.mode = mode) (further : Extends draft token clauses next)
  | behind (done : List Declaration) (complete : Finishes draft clauses done) (opened : Opened token mode)

variable {draft : Draft} {token : Token} {clauses : List Clause} {mode : Mode} {owner : Owner} {body : Body} {link : Link}
  {text name : String} {stage : Stage}

theorem numberOf_read {w : Int64} (read : readNumber text = .ok w) : numberOf text = w := by
  simp [numberOf,read,Except.toOption]

theorem intervalOf_read {interval : Interval} (read : readInterval (sign .interval text) name = .ok interval) :
    intervalOf text name = interval := by
  simp [intervalOf,read,Except.toOption]

theorem stage_named (named : body.stage = .named) : body = .bare := by
  obtain ⟨label,measure,before,after⟩ := body
  cases after <;> cases before <;> cases measure <;> cases label <;> first | rfl | cases named

theorem stage_early (early : body.stage = .named ∨ body.stage = .labelled) : body = ⟨body.label,none,[],none⟩ := by
  match body, early with
  | ⟨none,none,[],none⟩, _ => rfl
  | ⟨some _,none,[],none⟩, _ => rfl
  | ⟨_,some _,[],none⟩, early => simp [Body.stage] at early
  | ⟨_,_,_ :: _,none⟩, early => simp [Body.stage] at early
  | ⟨_,_,_,some _⟩, early => simp [Body.stage] at early

theorem stage_after : body.stage = .after ↔ body.after.isSome = true := by
  match body with
  | ⟨none,none,[],none⟩ => simp [Body.stage]
  | ⟨some _,none,[],none⟩ => simp [Body.stage]
  | ⟨_,some _,[],none⟩ => simp [Body.stage]
  | ⟨_,_,_ :: _,none⟩ => simp [Body.stage]
  | ⟨_,_,_,some _⟩ => simp [Body.stage]

theorem stage_arcs (body : Body) : body.stage.arcs = if body.after.isSome then .after else .before := by
  unfold Stage.arcs
  by_cases arrow : body.stage = .after
  · rw [if_pos arrow,if_pos (stage_after.mp arrow)]
  · rw [if_neg arrow,if_neg (mt stage_after.mpr arrow)]

theorem add_stage (body : Body) (link : Link) : (body.add link).stage = body.stage.arcs := by
  rw [stage_arcs]
  obtain ⟨label,measure,before,after⟩ := body
  cases after with
  | some links => rfl
  | none => cases before <;> rfl

theorem add_tokens (owner : Owner) (body : Body) (link : Link) :
    (body.add link).tokens owner = body.tokens owner ++ link.tokens := by
  obtain ⟨label,measure,before,after⟩ := body
  cases after <;> simp [Body.add,Body.tokens,arrowTokens,linkTokens]

theorem add_clauses (owner : Owner) (body : Body) (link : Link) :
    (body.add link).clauses owner = body.clauses owner ++ [linkClause owner body.after.isSome link] := by
  obtain ⟨label,measure,before,after⟩ := body
  cases after <;> simp [Body.add,Body.clauses]

theorem add_readable (readable : body.Readable owner) (further : link.Readable (owner.takes body.after.isSome)) :
    (body.add link).Readable owner := by
  obtain ⟨label,measure,before,after⟩ := body
  cases after with
  | none =>
    refine { readable with before := ?_ }
    intro other member
    rcases List.mem_append.mp member with old | new
    · exact readable.before other old
    · cases List.mem_singleton.mp new; exact further
  | some links =>
    refine { readable with after := ?_ }
    intro other member
    rcases List.mem_append.mp member with old | new
    · exact readable.after other old
    · cases List.mem_singleton.mp new; exact further

theorem draft_opened {kind : Kind} (fixed : token.Fixed) (same : token.kind = kind) (more : kind ≠ .eof)
    (known : fixedText? kind = some text) (next : Draft) (tokens : next.tokens = [sign kind text])
    (clauses : next.clauses = []) (readable : next.Readable) : Opened token next.mode := by
  refine .inr ⟨next,rfl,same ▸ more,?_,clauses,readable⟩
  rw [tokens,fixed.fixed same text known]
  rfl

theorem top_opened (fixed : token.Fixed) (taken : stepTop token = ⟨clauses,.ok mode⟩) :
    clauses = [] ∧ Opened token mode := by
  unfold stepTop at taken
  split at taken
  · next kind => cases taken; exact ⟨rfl,.inl kind⟩
  · next kind => cases taken; exact ⟨rfl,draft_opened fixed kind (by simp) rfl .net rfl rfl trivial⟩
  · next kind => cases taken; exact ⟨rfl,draft_opened fixed kind (by simp) rfl .transition rfl rfl trivial⟩
  · next kind => cases taken; exact ⟨rfl,draft_opened fixed kind (by simp) rfl .place rfl rfl trivial⟩
  · next kind => cases taken; exact ⟨rfl,draft_opened fixed kind (by simp) rfl (.upper []) rfl rfl trivial⟩
  · next kind => cases taken; exact ⟨rfl,draft_opened fixed kind (by simp) rfl .note rfl rfl trivial⟩
  · cases taken

end TimePetri.Script
