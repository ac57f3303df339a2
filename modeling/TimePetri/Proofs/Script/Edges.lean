import TimePetri.Proofs.Script.Drafts

namespace TimePetri.Script

def Clause.edges : Clause → List Edge
  | .arc p t use weight _ => [⟨p,t,use,weight.toInt.toNat⟩]
  | _ => []

def Clause.tokensAt (place : String) : Clause → Nat
  | .marking other count _ => if other = place then count.toInt.toNat else 0
  | _ => 0

def edgeOf (owner : Owner) (name : String) (use : Use) (weight : Nat) : Edge :=
  match owner with
  | .transition transition => ⟨name,transition,use,weight⟩
  | .place place => ⟨place,name,use,weight⟩

variable {owner : Owner} {body : Body} {link : Link} {links : List Link} {declaration : Declaration} {text : String}
  {takes after : Bool}

theorem numberOf_exact (number : ∃ w, readNumber text = .ok w) : (numberOf text).toInt = numeralValue text := by
  obtain ⟨w,read⟩ := number
  obtain ⟨_,n,natural,fits⟩ := (readNumber_exact text w).mp read
  rw [numberOf_read read,(word?_exact _ _).mp fits]
  unfold naturalOf? at natural
  split at natural
  · cases natural; rfl
  · cases natural

theorem count_exact (readable : link.Readable takes) : link.count.toInt = link.weight := by
  obtain ⟨name,mark⟩ := link
  cases mark with
  | none => rfl
  | some mark => exact numberOf_exact (readable.number mark rfl)

theorem linkClause_edges (readable : link.Readable (owner.takes after)) :
    (linkClause owner after link).edges = [edgeOf owner link.name (link.use (owner.takes after)) link.weight] := by
  have weight : link.count.toInt.toNat = link.weight := by rw [count_exact readable]; rfl
  cases owner <;> simp [linkClause,arcOf,edgeOf,Clause.edges,weight]

theorem linkClauses_edges (readable : ∀ link ∈ links, link.Readable (owner.takes after)) :
    (links.map (linkClause owner after)).flatMap Clause.edges =
      links.map fun link => edgeOf owner link.name (link.use (owner.takes after)) link.weight := by
  induction links with
  | nil => rfl
  | cons link rest ih =>
    rw [List.map_cons,List.flatMap_cons,linkClause_edges (readable link (by simp)),
      ih fun other member => readable other (List.mem_cons_of_mem _ member)]
    rfl

theorem linkClauses_tokensAt (owner : Owner) (after : Bool) (links : List Link) (place : String) :
    ((links.map (linkClause owner after)).map (Clause.tokensAt place)).sum = 0 := by
  induction links with
  | nil => rfl
  | cons link rest ih =>
    rw [List.map_cons,List.map_cons,List.sum_cons,ih]
    cases owner <;> rfl

theorem clauses_edges (readable : declaration.Readable) : declaration.clauses.flatMap Clause.edges = declaration.edges := by
  cases declaration with
  | net name => rfl
  | node owner body =>
    have before := linkClauses_edges readable.before
    have after := linkClauses_edges readable.after
    have label : (body.label.toList.map (labelClause owner)).flatMap Clause.edges = [] := by
      cases body.label <;> cases owner <;> rfl
    have measure : (body.measure.toList.map (measureClause owner)).flatMap Clause.edges = [] := by
      cases body.measure <;> cases owner <;> rfl
    have opening : owner.clause.edges = [] := by cases owner <;> rfl
    rw [Declaration.clauses,List.flatMap_cons,opening,Body.clauses,List.flatMap_append,List.flatMap_append,
      List.flatMap_append,label,measure,before,after]
    cases owner <;> rfl
  | priority first order second =>
    have mentions : ∀ names : List String, (names.map mentionClause).flatMap Clause.edges = [] := by
      intro names
      induction names with
      | nil => rfl
      | cons name rest ih => exact ih
    rw [Declaration.clauses,List.flatMap_append,mentions]
    rfl
  | note name level text => rfl

theorem clauses_tokensAt (readable : declaration.Readable) (place : String) :
    (declaration.clauses.map (Clause.tokensAt place)).sum = declaration.tokensAt place := by
  cases declaration with
  | net name => rfl
  | node owner body =>
    have label : ((body.label.toList.map (labelClause owner)).map (Clause.tokensAt place)).sum = 0 := by
      cases body.label <;> cases owner <;> rfl
    have opening : owner.clause.tokensAt place = 0 := by cases owner <;> rfl
    rw [Declaration.clauses,List.map_cons,List.sum_cons,opening,Body.clauses,List.map_append,List.map_append,
      List.map_append,List.sum_append,List.sum_append,List.sum_append,label,linkClauses_tokensAt,linkClauses_tokensAt]
    cases owner with
    | transition name => cases body.measure <;> rfl
    | place name =>
      cases measure : body.measure with
      | none => simp [Declaration.tokensAt,measure]
      | some text =>
        have weight := numberOf_exact (readable.measure text measure)
        simp [Declaration.tokensAt,measure,measureClause,Clause.tokensAt,weight]
  | priority first order second =>
    have mentions : ∀ names : List String, ((names.map mentionClause).map (Clause.tokensAt place)).sum = 0 := by
      intro names
      induction names with
      | nil => rfl
      | cons name rest ih => simpa [mentionClause,Clause.tokensAt] using ih
    rw [Declaration.clauses,List.map_append,List.sum_append,mentions]
    rfl
  | note name level text => rfl

theorem declarations_edges (declarations : List Declaration)
    (readable : ∀ declaration ∈ declarations, declaration.Readable) :
    (declarations.flatMap Declaration.clauses).flatMap Clause.edges = declarations.flatMap Declaration.edges := by
  induction declarations with
  | nil => rfl
  | cons declaration rest ih =>
    rw [List.flatMap_cons,List.flatMap_append,clauses_edges (readable declaration (by simp)),
      ih fun other member => readable other (List.mem_cons_of_mem _ member)]
    rfl

theorem declarations_tokensAt (declarations : List Declaration)
    (readable : ∀ declaration ∈ declarations, declaration.Readable) (place : String) :
    ((declarations.flatMap Declaration.clauses).map (Clause.tokensAt place)).sum = initialTokens declarations place := by
  induction declarations with
  | nil => rfl
  | cons declaration rest ih =>
    rw [List.flatMap_cons,List.map_append,List.sum_append,clauses_tokensAt (readable declaration (by simp)),
      ih fun other member => readable other (List.mem_cons_of_mem _ member)]
    rfl

end TimePetri.Script
