import TimePetri.Script.Declaration

namespace TimePetri.Script

def Kind.opens : Kind → Bool
  | .net | .transition | .place | .priority | .note | .eof => true
  | _ => false

def Kind.links : Kind → Bool
  | .ident | .star | .read | .inhibitor => true
  | _ => false

variable {owner : Owner} {declaration other : Declaration}

theorem split_unique {α : Type} (within : α → Bool) {first second rest others : List α}
    (same : first ++ rest = second ++ others) (firstAll : ∀ x ∈ first, within x = true)
    (secondAll : ∀ x ∈ second, within x = true) (restStops : ∀ x ∈ rest.head?, within x = false)
    (otherStops : ∀ x ∈ others.head?, within x = false) : first = second ∧ rest = others := by
  induction first generalizing second with
  | nil =>
    cases second with
    | nil => exact ⟨rfl,same⟩
    | cons y second =>
      have stops := restStops y (by rw [List.nil_append] at same; simp [same])
      rw [secondAll y (by simp)] at stops
      cases stops
  | cons x first ih =>
    cases second with
    | nil =>
      have stops := otherStops x (by rw [List.nil_append] at same; simp [← same])
      rw [firstAll x (by simp)] at stops
      cases stops
    | cons y second =>
      obtain ⟨rfl,tails⟩ := List.cons.inj same
      obtain ⟨rfl,rests⟩ := ih tails (fun z member => firstAll z (List.mem_cons_of_mem _ member))
        fun z member => secondAll z (List.mem_cons_of_mem _ member)
      exact ⟨rfl,rests⟩

theorem head_outside {α : Type} {within : α → Bool} {tail : List α} (outside : ∀ x ∈ tail, within x = false) :
    ∀ x ∈ tail.head?, within x = false := fun x member => outside x (List.mem_of_mem_head? member)

theorem link_unique {link other : Link} {tail others : List Token}
    (same : link.tokens ++ tail = other.tokens ++ others) (tailStops : ∀ token ∈ tail.head?, token.kind = .ident)
    (otherStops : ∀ token ∈ others.head?, token.kind = .ident) : link = other ∧ tail = others := by
  obtain ⟨name,mark⟩ := link
  obtain ⟨otherName,otherMark⟩ := other
  obtain ⟨heads,rests⟩ := List.cons.inj same
  have marked : ∀ mark : Option (Decoration × String), ∀ token ∈ mark.toList.map markToken,
      (token.kind != .ident) = true := by
    rintro (_ | ⟨_ | _ | _,_⟩) token member <;> simp [markToken,sign,Decoration.kind] at member ⊢ <;> simp [member]
  obtain ⟨marks,tails⟩ := split_unique (fun token : Token => token.kind != .ident) rests (marked mark) (marked otherMark)
    (fun token member => by simp [tailStops token member]) fun token member => by simp [otherStops token member]
  cases heads
  refine ⟨?_,tails⟩
  rcases mark with _ | ⟨_ | _ | _,_⟩ <;> rcases otherMark with _ | ⟨_ | _ | _,_⟩ <;>
    simp_all [markToken,sign,Decoration.kind]

theorem links_head (links : List Link) : ∀ token ∈ (linkTokens links).head?, token.kind = .ident := by
  cases links with
  | nil => exact nofun
  | cons link rest => intro token member; cases member; rfl

theorem links_unique (links others : List Link) (same : linkTokens links = linkTokens others) : links = others := by
  induction links generalizing others with
  | nil =>
    cases others with
    | nil => rfl
    | cons other others => cases same
  | cons link links ih =>
    cases others with
    | nil => cases same
    | cons other others =>
      obtain ⟨rfl,rests⟩ := link_unique same (links_head links) (links_head others)
      rw [ih others rests]

theorem arrow_unique (after other : Option (List Link)) (same : arrowTokens after = arrowTokens other) :
    after = other := by
  cases after with
  | none => cases other with
    | none => rfl
    | some others => cases same
  | some links => cases other with
    | none => cases same
    | some others => rw [links_unique links others (List.cons.inj same).2]

theorem links_kinds (links : List Link) : ∀ token ∈ linkTokens links, token.kind.links = true := by
  intro token member
  obtain ⟨⟨name,mark⟩,_,inLink⟩ := List.mem_flatMap.mp member
  rcases List.mem_cons.mp inLink with rfl | marked
  · rfl
  · obtain ⟨⟨decoration,number⟩,_,rfl⟩ := List.mem_map.mp marked
    cases decoration <;> rfl

theorem arrow_head (after : Option (List Link)) : ∀ token ∈ (arrowTokens after).head?, token.kind = .arrow := by
  cases after with
  | none => exact nofun
  | some links => intro token member; cases member; rfl

theorem arcs_kinds (body : Body) : ∀ token ∈ linkTokens body.before ++ arrowTokens body.after,
    token.kind = .arrow ∨ token.kind.links = true := by
  intro token member
  rcases List.mem_append.mp member with before | after
  · exact .inr (links_kinds _ token before)
  · cases arrow : body.after with
    | none => rw [arrow] at after; cases after
    | some links =>
      rw [arrow] at after
      rcases List.mem_cons.mp after with rfl | inLinks
      · exact .inl rfl
      · exact .inr (links_kinds links token inLinks)

theorem arcs_unique {body other : Body}
    (same : linkTokens body.before ++ arrowTokens body.after = linkTokens other.before ++ arrowTokens other.after) :
    body.before = other.before ∧ body.after = other.after := by
  have inside : ∀ links, ∀ token ∈ linkTokens links, (token.kind != .arrow) = true := by
    intro links token member
    have kind := links_kinds links token member
    cases same : token.kind <;> rw [same] at kind <;> first | rfl | cases kind
  have stops : ∀ after, ∀ token ∈ (arrowTokens after).head?, (token.kind != .arrow) = false :=
    fun after token member => by simp [arrow_head after token member]
  obtain ⟨befores,afters⟩ := split_unique (fun token : Token => token.kind != .arrow) same (inside _) (inside _) (stops _)
    (stops _)
  exact ⟨links_unique _ _ befores,arrow_unique _ _ afters⟩

theorem part_unique {kind : Kind} {part other : Option String} {tail others : List Token}
    (same : part.toList.map (sign kind) ++ tail = other.toList.map (sign kind) ++ others)
    (tailStops : ∀ token ∈ tail, token.kind ≠ kind) (otherStops : ∀ token ∈ others, token.kind ≠ kind) :
    part = other ∧ tail = others := by
  have inside : ∀ part : Option String, ∀ token ∈ part.toList.map (sign kind), (token.kind == kind) = true := by
    intro part token member
    obtain ⟨text,_,rfl⟩ := List.mem_map.mp member
    exact beq_self_eq_true kind
  obtain ⟨parts,tails⟩ := split_unique (fun token : Token => token.kind == kind) same (inside _) (inside _)
    (head_outside fun token member => beq_eq_false_iff_ne.mpr (tailStops token member))
    (head_outside fun token member => beq_eq_false_iff_ne.mpr (otherStops token member))
  refine ⟨?_,tails⟩
  cases part <;> cases other <;> simp_all [sign]

theorem arcs_outside (body : Body) (kind : Kind) (other : kind ≠ .arrow) (plain : kind.links = false) :
    ∀ token ∈ linkTokens body.before ++ arrowTokens body.after, token.kind ≠ kind := by
  rintro token member rfl
  rcases arcs_kinds body token member with arrow | inLinks
  · exact other arrow
  · rw [plain] at inLinks; cases inLinks

theorem measured_outside (owner : Owner) (body : Body) :
    ∀ token ∈ body.measure.toList.map (sign owner.measureKind) ++ (linkTokens body.before ++ arrowTokens body.after),
      token.kind ≠ .label := by
  intro token member
  rcases List.mem_append.mp member with measured | arcs
  · obtain ⟨text,_,rfl⟩ := List.mem_map.mp measured
    cases owner <;> simp [sign,Owner.measureKind]
  · exact arcs_outside body .label (by simp) rfl token arcs

theorem body_unique {body other : Body} (same : body.tokens owner = other.tokens owner) : body = other := by
  simp only [Body.tokens,List.append_assoc] at same
  obtain ⟨labels,rests⟩ := part_unique same (measured_outside owner body) (measured_outside owner other)
  have plain : owner.measureKind ≠ .arrow ∧ owner.measureKind.links = false := by cases owner <;> exact ⟨nofun,rfl⟩
  obtain ⟨measures,arcs⟩ := part_unique rests (arcs_outside body _ plain.1 plain.2) (arcs_outside other _ plain.1 plain.2)
  obtain ⟨befores,afters⟩ := arcs_unique arcs
  cases body
  cases other
  cases labels
  cases measures
  cases befores
  cases afters
  rfl

theorem names_unique (names others : List String) : names.map (sign .ident) = others.map (sign .ident) ↔ names = others :=
  List.map_inj_right fun _ _ same => congrArg Token.text same

theorem order_stops (order : Order) : order.token.kind ≠ .ident := by cases order <;> exact nofun

theorem priority_unique {first second others rest : List String} {order turned : Order}
    (same : first.map (sign .ident) ++ order.token :: second.map (sign .ident) =
      others.map (sign .ident) ++ turned.token :: rest.map (sign .ident)) :
    first = others ∧ order = turned ∧ second = rest := by
  have inside : ∀ names : List String, ∀ token ∈ names.map (sign .ident), (token.kind == .ident) = true := by
    intro names token member
    obtain ⟨name,_,rfl⟩ := List.mem_map.mp member
    rfl
  have stops : ∀ (order : Order) (tail : List Token), ∀ token ∈ (order.token :: tail).head?, (token.kind == .ident) = false := by
    intro order tail token member
    cases member
    exact beq_eq_false_iff_ne.mpr (order_stops order)
  obtain ⟨firsts,rests⟩ := split_unique (fun token : Token => token.kind == .ident) same (inside _) (inside _) (stops _ _)
    (stops _ _)
  obtain ⟨orders,seconds⟩ := List.cons.inj rests
  refine ⟨(names_unique _ _).mp firsts,?_,(names_unique _ _).mp seconds⟩
  cases order <;> cases turned <;> first | rfl | cases orders

theorem declaration_unique (same : declaration.tokens = other.tokens) : declaration = other := by
  cases declaration with
  | net name =>
    cases other with
    | net other => cases same; rfl
    | node owner _ => cases owner <;> cases same
    | _ => cases same
  | node owner body =>
    cases other with
    | node owner' body' =>
      cases owner <;> cases owner' <;> simp [Declaration.tokens,Owner.opening,sign] at same
      · obtain ⟨rfl,bodies⟩ := same
        rw [body_unique bodies]
      · obtain ⟨rfl,bodies⟩ := same
        rw [body_unique bodies]
    | _ => cases owner <;> cases same
  | priority first order second =>
    cases other with
    | priority first' order' second' =>
      obtain ⟨rfl,rfl,rfl⟩ := priority_unique (List.cons.inj same).2
      rfl
    | node owner _ => cases owner <;> cases same
    | _ => cases same
  | note name level text =>
    cases other with
    | note name' level' text' => cases same; rfl
    | node owner _ => cases owner <;> cases same
    | _ => cases same

theorem body_within (owner : Owner) (body : Body) : ∀ token ∈ body.tokens owner, token.kind.opens = false := by
  simp only [Body.tokens,List.append_assoc]
  intro token member
  rcases List.mem_append.mp member with label | rest
  · obtain ⟨text,_,rfl⟩ := List.mem_map.mp label
    rfl
  · rcases List.mem_append.mp rest with measured | arcs
    · obtain ⟨text,_,rfl⟩ := List.mem_map.mp measured
      cases owner <;> rfl
    · rcases arcs_kinds body token arcs with arrow | inLinks
      · rw [arrow]; rfl
      · cases same : token.kind <;> rw [same] at inLinks <;> first | rfl | cases inLinks

theorem declaration_parts (declaration : Declaration) : ∃ first rest, declaration.tokens = first :: rest ∧
    first.kind.opens = true ∧ first.kind ≠ .eof ∧ ∀ token ∈ rest, token.kind.opens = false := by
  cases declaration with
  | net name =>
    refine ⟨_,_,rfl,rfl,nofun,?_⟩
    intro token member
    cases List.mem_singleton.mp member
    rfl
  | node owner body =>
    cases owner with
    | transition name =>
      refine ⟨_,_,rfl,rfl,nofun,?_⟩
      intro token member
      rcases List.mem_cons.mp member with rfl | inBody
      · rfl
      · exact body_within _ body token inBody
    | place name =>
      refine ⟨_,_,rfl,rfl,nofun,?_⟩
      intro token member
      rcases List.mem_cons.mp member with rfl | inBody
      · rfl
      · exact body_within _ body token inBody
  | priority first order second =>
    refine ⟨_,_,rfl,rfl,nofun,?_⟩
    intro token member
    rcases List.mem_append.mp member with inFirst | rest
    · obtain ⟨name,_,rfl⟩ := List.mem_map.mp inFirst
      rfl
    · rcases List.mem_cons.mp rest with rfl | inSecond
      · cases order <;> rfl
      · obtain ⟨name,_,rfl⟩ := List.mem_map.mp inSecond
        rfl
  | note name level text =>
    refine ⟨_,_,rfl,rfl,nofun,?_⟩
    intro token member
    simp [sign] at member
    rcases member with rfl | rfl | rfl <;> rfl

theorem declarations_head (declarations : List Declaration) :
    ∀ token ∈ (declarations.flatMap Declaration.tokens ++ [sign .eof "EOF"]).head?, token.kind.opens = true := by
  cases declarations with
  | nil => intro token member; cases member; rfl
  | cons declaration rest =>
    obtain ⟨first,tail,same,opens,_⟩ := declaration_parts declaration
    intro token member
    rw [List.flatMap_cons,same] at member
    cases member
    exact opens

theorem declarations_unique (declarations others : List Declaration)
    (same : declarations.flatMap Declaration.tokens ++ [sign .eof "EOF"] =
      others.flatMap Declaration.tokens ++ [sign .eof "EOF"]) : declarations = others := by
  have apart : ∀ (declaration : Declaration) (rest : List Declaration),
      [sign .eof "EOF"] ≠ (declaration :: rest).flatMap Declaration.tokens ++ [sign .eof "EOF"] := by
    intro declaration rest ends
    obtain ⟨first,tail,tokens,_,more,_⟩ := declaration_parts declaration
    rw [List.flatMap_cons,tokens] at ends
    cases (List.cons.inj ends).1
    exact more rfl
  induction declarations generalizing others with
  | nil =>
    cases others with
    | nil => rfl
    | cons other others => exact absurd same (apart other others)
  | cons declaration declarations ih =>
    cases others with
    | nil => exact absurd same.symm (apart declaration declarations)
    | cons other others =>
      obtain ⟨first,tail,tokens,_,_,within⟩ := declaration_parts declaration
      obtain ⟨first',tail',tokens',_,_,within'⟩ := declaration_parts other
      rw [List.flatMap_cons,List.flatMap_cons,List.append_assoc,List.append_assoc,tokens,tokens'] at same
      obtain ⟨rfl,rests⟩ := List.cons.inj same
      -- A declaration runs up to the next token that can open one.
      obtain ⟨rfl,laters⟩ := split_unique (fun token : Token => !token.kind.opens) rests
        (fun token member => by simp [within token member]) (fun token member => by simp [within' token member])
        (fun token member => by simp [declarations_head _ token member])
        (fun token member => by simp [declarations_head _ token member])
      rw [declaration_unique (tokens.trans tokens'.symm),ih others laters]

end TimePetri.Script
