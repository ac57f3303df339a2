import TimePetri.Proofs.Net.Cells
import TimePetri.Proofs.Net.Names

namespace TimePetri

open Script Priority

namespace Script

def RanksBy (first : List String) (order : Order) (second : List String) (upper lower : String) : Prop :=
  match order with
  | .above => upper ∈ first ∧ lower ∈ second
  | .below => upper ∈ second ∧ lower ∈ first

def Clause.Ranks (upper lower : String) : Clause → Prop
  | .priority first order second => RanksBy first order second upper lower
  | _ => False

def Declaration.Ranks (upper lower : String) : Declaration → Prop
  | .priority first order second => RanksBy first order second upper lower
  | _ => False

def Clause.ranked : Clause → List String
  | .priority first _ second => first ++ second
  | _ => []

-- The names of a priority are mentioned before it takes effect.
def Introduced (known : List String) : List Clause → Prop
  | [] => True
  | clause :: rest => (∀ name ∈ clause.ranked, name ∈ known) ∧ Introduced (known ++ clause.transitionNames) rest

variable {clause : Clause} {clauses later : List Clause} {declaration : Declaration} {known : List String}
  {upper lower : String}

theorem introduced_append : Introduced known (clauses ++ later) ↔
    Introduced known clauses ∧ Introduced (known ++ clauses.flatMap Clause.transitionNames) later := by
  induction clauses generalizing known with
  | nil => simp [Introduced]
  | cons clause rest ih =>
    rw [List.cons_append,Introduced,Introduced,ih,List.flatMap_cons,List.append_assoc]
    exact and_assoc.symm

theorem introduced_plain (plain : ∀ clause ∈ clauses, clause.ranked = []) : Introduced known clauses := by
  induction clauses generalizing known with
  | nil => trivial
  | cons clause rest ih =>
    refine ⟨?_,ih fun other member => plain other (List.mem_cons_of_mem _ member)⟩
    rw [plain clause (by simp)]
    exact nofun

theorem body_plain (owner : Owner) (body : Body) : ∀ clause ∈ owner.clause :: body.clauses owner,
    clause.ranked = [] ∧ ∀ upper lower, ¬ clause.Ranks upper lower := by
  intro clause member
  simp only [Body.clauses,List.mem_cons,List.mem_append,List.mem_map] at member
  rcases member with rfl | ((⟨label,_,rfl⟩ | ⟨text,_,rfl⟩) | ⟨link,_,rfl⟩) | ⟨link,_,rfl⟩ <;>
    cases owner <;> exact ⟨rfl,fun _ _ => id⟩

theorem declaration_introduced (declaration : Declaration) (known : List String) : Introduced known declaration.clauses := by
  cases declaration with
  | net name => exact introduced_plain (by simp [Declaration.clauses,Clause.ranked])
  | note name level text => exact introduced_plain (by simp [Declaration.clauses,Clause.ranked])
  | node owner body => exact introduced_plain fun clause member => (body_plain owner body clause member).1
  | priority first order second =>
    refine introduced_append.mpr ⟨introduced_plain fun clause member => ?_,?_,trivial⟩
    · obtain ⟨name,_,rfl⟩ := List.mem_map.mp member
      rfl
    · intro name member
      refine List.mem_append_right _ (List.mem_flatMap.mpr ⟨mentionClause name,List.mem_map_of_mem member,?_⟩)
      exact List.mem_singleton.mpr rfl

theorem declarations_introduced (declarations : List Declaration) (known : List String) :
    Introduced known (declarations.flatMap Declaration.clauses) := by
  induction declarations generalizing known with
  | nil => trivial
  | cons declaration rest ih =>
    rw [List.flatMap_cons]
    exact introduced_append.mpr ⟨declaration_introduced declaration known,ih _⟩

theorem clauses_rank (declaration : Declaration) :
    (∃ clause ∈ declaration.clauses, clause.Ranks upper lower) ↔ declaration.Ranks upper lower := by
  cases declaration with
  | net name => simp [Declaration.clauses,Clause.Ranks,Declaration.Ranks]
  | note name level text => simp [Declaration.clauses,Clause.Ranks,Declaration.Ranks]
  | node owner body =>
    refine iff_of_false ?_ id
    rintro ⟨clause,member,ranks⟩
    exact (body_plain owner body clause member).2 _ _ ranks
  | priority first order second =>
    constructor
    · rintro ⟨clause,member,ranks⟩
      rcases List.mem_append.mp member with mention | last
      · obtain ⟨name,_,rfl⟩ := List.mem_map.mp mention
        exact ranks.elim
      · cases List.mem_singleton.mp last
        exact ranks
    · exact fun ranks => ⟨.priority first order second,by simp [Declaration.clauses],ranks⟩

end Script

theorem addNames_member (names further : List String) (name : String) :
    name ∈ further.foldl addName names ↔ name ∈ names ∨ name ∈ further := by
  induction further generalizing names with
  | nil => simp
  | cons first rest ih =>
    rw [List.foldl_cons,ih,addName,List.mem_cons]
    split
    · next known =>
      constructor
      · exact fun found => found.imp_right .inr
      · rintro (old | rfl | later)
        · exact .inl old
        · exact .inl known
        · exact .inr later
    · rw [List.mem_append,List.mem_singleton,or_assoc]

namespace Net

variable {net next last : Net} {strict : Bool} {name upper lower : String} {t u : Nat} {clause : Clause}
  {clauses : List Clause} {known : List String}

def Ranks (net : Net) (upper lower : String) : Prop :=
  ∃ t u, net.transitionIndex? upper = some t ∧ net.transitionIndex? lower = some u ∧ Below net.prio t u

theorem ranks_known (sound : net.Sound) (upperKnown : net.transitions[t]? = some upper)
    (lowerKnown : net.transitions[u]? = some lower) : net.Ranks upper lower ↔ Below net.prio t u := by
  unfold Ranks transitionIndex?
  rw [(number_exact _ sound.transitionNames _ _).mpr upperKnown,(number_exact _ sound.transitionNames _ _).mpr lowerKnown]
  simp

theorem ranks_same (transitions : next.transitions = net.transitions) (prio : next.prio = net.prio) :
    next.Ranks upper lower ↔ net.Ranks upper lower := by
  unfold Ranks transitionIndex?
  rw [transitions,prio]

theorem ensurePlace_ranks (net : Net) (name : String) : (net.ensurePlace name).2.Ranks upper lower ↔ net.Ranks upper lower := by
  rcases ensurePlace_cases net name with ⟨p,_,known⟩ | ⟨_,added⟩
  · rw [known]
  · rw [added]
    exact ranks_same rfl rfl

theorem ensureTransition_ranks (sound : net.Sound) (name : String) :
    (net.ensureTransition name).2.Ranks upper lower ↔ net.Ranks upper lower := by
  rcases ensureTransition_cases net name with ⟨t,_,known⟩ | ⟨_,added⟩
  · rw [known]
  · rw [added]
    have old : ∀ t u, Below (net.addTransition name).prio t u ↔ Below net.prio t u := by
      intro t u
      unfold Below
      rw [addTransition_lower]
    have inside : ∀ t u, Below net.prio t u → t < net.transitions.size ∧ u < net.transitions.size := by
      intro t u below
      rw [← sound.tabled.prio]
      refine ⟨?_,(inTable_exact _).mp sound.inTable t u below⟩
      by_contra outside
      unfold Below lowerOf at below
      rw [Array.getElem?_eq_none (by omega)] at below
      cases below
    have numbers : ∀ other index, index < net.transitions.size →
        ((net.addTransition name).transitionIndex? other = some index ↔ net.transitionIndex? other = some index) := by
      intro other index inside
      unfold transitionIndex? addTransition
      dsimp only
      rw [number_push]
      cases net.transitions.idxOf? other with
      | some t => rfl
      | none => by_cases same : name = other <;> simp [same]; omega
    unfold Ranks
    simp only [old]
    refine exists_congr fun t => exists_congr fun u => ?_
    constructor
    · rintro ⟨above,beneath,below⟩
      exact ⟨(numbers _ _ (inside t u below).1).mp above,(numbers _ _ (inside t u below).2).mp beneath,below⟩
    · rintro ⟨above,beneath,below⟩
      exact ⟨(numbers _ _ (inside t u below).1).mpr above,(numbers _ _ (inside t u below).2).mpr beneath,below⟩

theorem numberAll_known (sound : net.Sound) (names : List String) (found : net.transitionIndex? name = some t) :
    t ∈ net.numberAll names ↔ name ∈ names := by
  rw [numberAll_member]
  have stands := number_found _ _ _ found
  constructor
  · rintro ⟨other,member,same⟩
    rw [(number_same sound.transitionNames stands other).mp same]
    exact member
  · exact fun member => ⟨name,member,found⟩

theorem prioritize_ranks (sound : net.Sound) (first second : List String) :
    (net.prioritize (net.numberAll first) (net.numberAll second)).Ranks upper lower ↔ net.Ranks upper lower ∨
      (∃ t, net.transitionIndex? upper = some t) ∧ (∃ u, net.transitionIndex? lower = some u) ∧
        upper ∈ first ∧ lower ∈ second := by
  have inTable : ∀ t ∈ net.numberAll first, t < net.prio.size :=
    fun t member => sound.tabled.prio ▸ numberAll_inside _ _ t member
  have more : (net.prioritize (net.numberAll first) (net.numberAll second)).Ranks upper lower ↔
      ∃ t u, net.transitionIndex? upper = some t ∧ net.transitionIndex? lower = some u ∧
        (Below net.prio t u ∨ t ∈ net.numberAll first ∧ u ∈ net.numberAll second) :=
    exists_congr fun t => exists_congr fun u => and_congr_right fun _ => and_congr_right fun _ =>
      modifyAll_below _ _ _ inTable t u
  rw [more]
  constructor
  · rintro ⟨t,u,above,beneath,below | ⟨inUpper,inLower⟩⟩
    · exact .inl ⟨t,u,above,beneath,below⟩
    · exact .inr ⟨⟨t,above⟩,⟨u,beneath⟩,(numberAll_known sound first above).mp inUpper,
        (numberAll_known sound second beneath).mp inLower⟩
  · rintro (⟨t,u,above,beneath,below⟩ | ⟨⟨t,above⟩,⟨u,beneath⟩,inFirst,inSecond⟩)
    · exact ⟨t,u,above,beneath,.inl below⟩
    · exact ⟨t,u,above,beneath,.inr ⟨(numberAll_known sound first above).mpr inFirst,
        (numberAll_known sound second beneath).mpr inSecond⟩⟩

theorem apply_ranks (sound : net.Sound) (applied : net.apply strict clause = .ok next)
    (introduced : ∀ name ∈ clause.ranked, name ∈ net.transitions) :
    next.Ranks upper lower ↔ net.Ranks upper lower ∨ clause.Ranks upper lower := by
  have number {name : String} (member : name ∈ clause.ranked) : ∃ t, net.transitionIndex? name = some t := by
    cases found : net.transitionIndex? name with
    | some t => exact ⟨t,rfl⟩
    | none => exact absurd (introduced name member) (Array.idxOf?_eq_none_iff.mp found)
  cases clause with
  | netName name => cases applied; exact (ranks_same rfl rfl).trans (or_iff_left id).symm
  | transition name => cases applied; exact (ensureTransition_ranks sound name).trans (or_iff_left id).symm
  | transitionLabel name label => cases applied; exact (ensureTransition_ranks sound name).trans (or_iff_left id).symm
  | interval name interval token =>
    obtain ⟨current,result,_,_,rfl⟩ := narrow_parts interval token applied
    exact (ensureTransition_ranks sound name).trans (or_iff_left id).symm
  | place name => cases applied; exact (ensurePlace_ranks net name).trans (or_iff_left id).symm
  | placeLabel name label => cases applied; exact (ensurePlace_ranks net name).trans (or_iff_left id).symm
  | marking name count token =>
    obtain ⟨initial,_,same⟩ := bind_ok.mp applied
    cases same
    exact (ensurePlace_ranks net name).trans (or_iff_left id).symm
  | arc p t use weight token =>
    have placed := ensurePlace_sound sound p
    obtain ⟨row,_,rfl⟩ := connect_parts (ensureTransition_sound placed t) (ensureTransition_inside _ _) (mapError_ok.mp applied)
    have ends : _ ↔ net.Ranks upper lower := (ensureTransition_ranks placed t).trans (ensurePlace_ranks net p)
    exact ends.trans (or_iff_left id).symm
  | mention token =>
    unfold apply at applied
    dsimp only at applied
    split at applied
    · cases applied
    · cases applied; exact (ensureTransition_ranks sound token.text).trans (or_iff_left id).symm
  | priority first order second =>
    cases order with
    | above =>
      cases applied
      refine (prioritize_ranks sound first second).trans (or_congr_right ⟨fun ranks => ranks.2.2,fun ranks => ?_⟩)
      exact ⟨number (List.mem_append_left _ ranks.1),number (List.mem_append_right _ ranks.2),ranks⟩
    | below =>
      cases applied
      refine (prioritize_ranks sound second first).trans (or_congr_right ⟨fun ranks => ranks.2.2,fun ranks => ?_⟩)
      exact ⟨number (List.mem_append_right _ ranks.1),number (List.mem_append_left _ ranks.2),ranks⟩
  | note text => cases applied; exact (or_iff_left id).symm

theorem run_ranks (sound : net.Sound) (measured : ∀ clause ∈ clauses, clause.Measured) (introduced : Introduced known clauses)
    (met : ∀ name ∈ known, name ∈ net.transitions) (applied : clauses.foldlM (apply strict) net = .ok last) :
    last.Ranks upper lower ↔ net.Ranks upper lower ∨ ∃ clause ∈ clauses, clause.Ranks upper lower := by
  induction clauses generalizing net known with
  | nil => cases applied; simp
  | cons clause rest ih =>
    rw [List.foldlM_cons] at applied
    obtain ⟨middle,now,later⟩ := bind_ok.mp applied
    have names := (apply_named sound now).transitions
    have further : ∀ name ∈ known ++ clause.transitionNames, name ∈ middle.transitions := by
      intro name member
      rw [← Array.mem_toList_iff,names,addNames_member,Array.mem_toList_iff]
      exact (List.mem_append.mp member).imp_left (met name)
    rw [ih (apply_sound sound strict clause (measured clause (by simp)) now)
      (fun other member => measured other (List.mem_cons_of_mem _ member)) introduced.2 further later,
      apply_ranks sound now fun name member => met name (introduced.1 name member)]
    simp [or_assoc]

theorem declared_ranks {text : String} {declarations : List Declaration} (declared : Declared strict text net declarations)
    (upper lower : String) : net.Ranks upper lower ↔ ∃ declaration ∈ declarations, declaration.Ranks upper lower := by
  rw [run_ranks empty_sound declared.measured (declarations_introduced declarations []) nofun declared.applied]
  have none : ¬ empty.Ranks upper lower := by simp [Ranks,transitionIndex?,empty]
  simp only [none,false_or,← clauses_rank,List.mem_flatMap]
  constructor
  · rintro ⟨clause,⟨declaration,member,within⟩,ranks⟩
    exact ⟨declaration,member,clause,within,ranks⟩
  · rintro ⟨declaration,member,clause,within,ranks⟩
    exact ⟨clause,⟨declaration,member,within⟩,ranks⟩

end Net

end TimePetri
