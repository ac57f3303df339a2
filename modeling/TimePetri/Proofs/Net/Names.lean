import TimePetri.Proofs.Net.Declared

namespace TimePetri

open Script

def Script.Clause.placeNames : Clause → List String
  | .place name => [name]
  | .placeLabel name _ => [name]
  | .marking name _ _ => [name]
  | .arc p _ _ _ _ => [p]
  | _ => []

def Script.Clause.transitionNames : Clause → List String
  | .transition name => [name]
  | .transitionLabel name _ => [name]
  | .interval name _ _ => [name]
  | .arc _ t _ _ _ => [t]
  | .mention token => [token.text]
  | _ => []

def addName (names : List String) (name : String) : List String := if name ∈ names then names else names ++ [name]

theorem addName_first (names : List String) (name : String) : addName names.eraseDups name = (names ++ [name]).eraseDups := by
  rw [List.eraseDups_append]
  by_cases known : name ∈ names <;> simp [addName,known,List.removeAll,List.eraseDups_cons]

theorem addNames_first (names further : List String) :
    further.foldl addName names.eraseDups = (names ++ further).eraseDups := by
  induction further generalizing names with
  | nil => simp
  | cons name rest ih =>
    rw [List.foldl_cons,addName_first,ih,List.append_assoc]
    rfl

theorem addNames_known (names further : List String) (known : ∀ name ∈ further, name ∈ names) :
    further.foldl addName names = names := by
  induction further with
  | nil => rfl
  | cons name rest ih =>
    rw [List.foldl_cons,addName,if_pos (known name (by simp))]
    exact ih fun other member => known other (List.mem_cons_of_mem _ member)

theorem addNames_same (names further : List String) (name : String) (same : ∀ other ∈ further, other = name) :
    (name :: further).foldl addName names = addName names name := by
  rw [List.foldl_cons]
  refine addNames_known _ _ fun other member => ?_
  rw [same other member,addName]
  split
  · assumption
  · simp

namespace Net

variable {net next : Net} {strict : Bool} {clause : Clause} {name : String}

theorem ensurePlace_names (net : Net) (name : String) :
    (net.ensurePlace name).2.places.toList = addName net.places.toList name ∧
      (net.ensurePlace name).2.transitions = net.transitions := by
  rcases ensurePlace_cases net name with ⟨p,found,known⟩ | ⟨fresh,added⟩
  · have member : name ∈ net.places := Array.mem_of_getElem? (number_found _ _ _ found)
    simp [known,addName,member]
  · simp [added,addName,fresh,addPlace]

theorem ensureTransition_names (net : Net) (name : String) :
    (net.ensureTransition name).2.transitions.toList = addName net.transitions.toList name ∧
      (net.ensureTransition name).2.places = net.places := by
  rcases ensureTransition_cases net name with ⟨p,found,known⟩ | ⟨fresh,added⟩
  · have member : name ∈ net.transitions := Array.mem_of_getElem? (number_found _ _ _ found)
    simp [known,addName,member]
  · simp [added,addName,fresh,addTransition]

structure Named (net next : Net) (places transitions : List String) : Prop where
  places : next.places.toList = places.foldl addName net.places.toList
  transitions : next.transitions.toList = transitions.foldl addName net.transitions.toList

theorem place_named (net : Net) (name : String) : Named net (net.ensurePlace name).2 [name] [] :=
  ⟨(ensurePlace_names net name).1,congrArg Array.toList (ensurePlace_names net name).2⟩

theorem transition_named (net : Net) (name : String) : Named net (net.ensureTransition name).2 [] [name] :=
  ⟨congrArg Array.toList (ensureTransition_names net name).2,(ensureTransition_names net name).1⟩

theorem Named.then {middle : Net} {places morePlaces transitions moreTransitions : List String}
    (first : Named net middle places transitions) (second : Named middle next morePlaces moreTransitions) :
    Named net next (places ++ morePlaces) (transitions ++ moreTransitions) := by
  constructor
  · rw [List.foldl_append,← first.places,second.places]
  · rw [List.foldl_append,← first.transitions,second.transitions]

theorem apply_named (sound : net.Sound) (applied : net.apply strict clause = .ok next) : Named net next clause.placeNames clause.transitionNames := by
  cases clause with
  | netName name => cases applied; exact ⟨rfl,rfl⟩
  | transition name => cases applied; exact transition_named net name
  | transitionLabel name label => cases applied; exact ⟨(transition_named net name).places,(transition_named net name).transitions⟩
  | interval name interval token =>
    obtain ⟨current,result,_,_,rfl⟩ := narrow_parts interval token applied
    exact ⟨(transition_named net name).places,(transition_named net name).transitions⟩
  | place name => cases applied; exact place_named net name
  | placeLabel name label => cases applied; exact ⟨(place_named net name).places,(place_named net name).transitions⟩
  | marking name count token =>
    obtain ⟨initial,_,same⟩ := bind_ok.mp applied
    cases same
    exact ⟨(place_named net name).places,(place_named net name).transitions⟩
  | arc p t use weight token =>
    have ends := (place_named net p).then (transition_named (net.ensurePlace p).2 t)
    obtain ⟨row,_,rfl⟩ := connect_parts (ensureTransition_sound (ensurePlace_sound sound p) t)
      (ensureTransition_inside _ _) (mapError_ok.mp applied)
    exact ⟨ends.places,ends.transitions⟩
  | mention token =>
    unfold apply at applied
    dsimp only at applied
    split at applied
    · cases applied
    · cases applied; exact transition_named net token.text
  | priority first order second => cases order <;> cases applied <;> exact ⟨rfl,rfl⟩
  | note text => cases applied; exact ⟨rfl,rfl⟩

theorem run_named (clauses : List Clause) (measured : ∀ clause ∈ clauses, clause.Measured)
    (applied : clauses.foldlM (apply strict) empty = .ok net) :
    Named empty net (clauses.flatMap Clause.placeNames) (clauses.flatMap Clause.transitionNames) := by
  refine run_induction (motive := fun done net =>
    Named empty net (done.flatMap Clause.placeNames) (done.flatMap Clause.transitionNames)) ⟨rfl,rfl⟩ ?_ clauses measured
      applied
  intro done net clause next sound holds _ applied
  have both := holds.then (apply_named sound applied)
  simpa using both

end Net

namespace Script

variable {declaration : Declaration} {owner : Owner} {body : Body}

theorem body_own (owner : Owner) (body : Body) : ∀ clause ∈ body.clauses owner,
    match owner with
    | .transition t => clause.transitionNames = [t]
    | .place p => clause.placeNames = [p] := by
  intro clause member
  have kinds : (∃ label, clause = labelClause owner label) ∨ (∃ text, clause = measureClause owner text) ∨
      ∃ after link, clause = linkClause owner after link := by
    simp only [Body.clauses,List.mem_append,List.mem_map] at member
    rcases member with ((⟨label,_,rfl⟩ | ⟨text,_,rfl⟩) | ⟨link,_,rfl⟩) | ⟨link,_,rfl⟩
    · exact .inl ⟨label,rfl⟩
    · exact .inr (.inl ⟨text,rfl⟩)
    · exact .inr (.inr ⟨false,link,rfl⟩)
    · exact .inr (.inr ⟨true,link,rfl⟩)
  rcases kinds with ⟨label,rfl⟩ | ⟨text,rfl⟩ | ⟨after,link,rfl⟩ <;> cases owner <;> rfl

theorem links_others (owner : Owner) (after : Bool) (links : List Link) :
    match owner with
    | .transition _ => (links.map (linkClause owner after)).flatMap Clause.placeNames = links.map (·.name)
    | .place _ => (links.map (linkClause owner after)).flatMap Clause.transitionNames = links.map (·.name) := by
  cases owner <;> induction links with
  | nil => rfl
  | cons link rest ih => exact congrArg (link.name :: ·) ih

theorem body_others (owner : Owner) (body : Body) :
    match owner with
    | .transition _ => (body.clauses owner).flatMap Clause.placeNames = body.links.map (·.name)
    | .place _ => (body.clauses owner).flatMap Clause.transitionNames = body.links.map (·.name) := by
  obtain ⟨label,measure,before,after⟩ := body
  have first := links_others owner false before
  have second := links_others owner true (after.getD [])
  cases owner <;> simp only [Body.clauses,Body.links,List.flatMap_append,List.map_append] at first second ⊢ <;>
    rw [first,second] <;> cases label <;> cases measure <;> rfl

theorem clauses_names (declaration : Declaration) (names : List String) :
    (declaration.clauses.flatMap Clause.placeNames).foldl addName names = declaration.placeNames.foldl addName names ∧
      (declaration.clauses.flatMap Clause.transitionNames).foldl addName names =
        declaration.transitionNames.foldl addName names := by
  cases declaration with
  | net name => exact ⟨rfl,rfl⟩
  | note name level text => exact ⟨rfl,rfl⟩
  | priority first order second =>
    have mentions : ∀ names : List String, (names.map mentionClause).flatMap Clause.transitionNames = names ∧
        (names.map mentionClause).flatMap Clause.placeNames = [] := by
      intro names
      induction names with
      | nil => exact ⟨rfl,rfl⟩
      | cons name rest ih => exact ⟨congrArg (name :: ·) ih.1,ih.2⟩
    obtain ⟨transitions,places⟩ := mentions (first ++ second)
    constructor
    · rw [Declaration.clauses,List.flatMap_append,places]
      rfl
    · rw [Declaration.clauses,List.flatMap_append,transitions]
      exact congrArg (List.foldl addName names) (List.append_nil _)
  | node owner body =>
    have own := body_own owner body
    have others := body_others owner body
    cases owner with
    | transition t =>
      refine ⟨congrArg (List.foldl addName names) others,addNames_same _ _ t fun other member => ?_⟩
      obtain ⟨clause,inClauses,named⟩ := List.mem_flatMap.mp member
      rw [own clause inClauses] at named
      exact List.mem_singleton.mp named
    | place p =>
      refine ⟨addNames_same _ _ p fun other member => ?_,congrArg (List.foldl addName names) others⟩
      obtain ⟨clause,inClauses,named⟩ := List.mem_flatMap.mp member
      rw [own clause inClauses] at named
      exact List.mem_singleton.mp named

theorem declarations_names (declarations : List Declaration) (names : List String) :
    ((declarations.flatMap Declaration.clauses).flatMap Clause.placeNames).foldl addName names =
        (declarations.flatMap Declaration.placeNames).foldl addName names ∧
      ((declarations.flatMap Declaration.clauses).flatMap Clause.transitionNames).foldl addName names =
        (declarations.flatMap Declaration.transitionNames).foldl addName names := by
  induction declarations generalizing names with
  | nil => exact ⟨rfl,rfl⟩
  | cons declaration rest ih =>
    simp only [List.flatMap_cons,List.flatMap_append,List.foldl_append,(clauses_names declaration names).1,
      (clauses_names declaration names).2]
    exact ⟨(ih _).1,(ih _).2⟩

end Script

namespace Net

theorem declared_names {text : String} {declarations : List Declaration} (declared : Declared strict text net declarations) :
    net.places.toList = (declarations.flatMap Declaration.placeNames).eraseDups ∧
      net.transitions.toList = (declarations.flatMap Declaration.transitionNames).eraseDups := by
  have named := run_named _ declared.measured declared.applied
  obtain ⟨places,_⟩ := declarations_names declarations []
  obtain ⟨_,transitions⟩ := declarations_names declarations []
  exact ⟨named.places.trans (places.trans (addNames_first [] _)),
    named.transitions.trans (transitions.trans (addNames_first [] _))⟩

end Net

end TimePetri
