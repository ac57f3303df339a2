import Mathlib
import TimePetri.Proofs.Net.Ranked
import TimePetri.Proofs.Priority.Transitive

namespace TimePetri

open Script Priority
open Relation (TransGen)

namespace Script

def Declaration.sides? : Declaration → Option (List String × List String)
  | .priority first .above second => some (first,second)
  | .priority first .below second => some (second,first)
  | _ => none

-- Each priority stands among others too, with either operator. Its names may come in
-- another order and more than once, and so may the priorities.
def Restated (declarations others : List Declaration) : Prop :=
  ∀ declaration ∈ declarations, ∀ greater lesser, declaration.sides? = some (greater,lesser) →
    ∃ other ∈ others, ∃ upper lower, other.sides? = some (upper,lower) ∧
      (∀ name, name ∈ greater ↔ name ∈ upper) ∧ ∀ name, name ∈ lesser ↔ name ∈ lower

def Ranked (declarations : List Declaration) (upper lower : String) : Prop :=
  ∃ declaration ∈ declarations, ∃ greater lesser, declaration.sides? = some (greater,lesser) ∧ upper ∈ greater ∧
    lower ∈ lesser

variable {declarations others : List Declaration} {upper lower : String}

theorem ranks_sides (declaration : Declaration) : declaration.Ranks upper lower ↔
    ∃ greater lesser, declaration.sides? = some (greater,lesser) ∧ upper ∈ greater ∧ lower ∈ lesser := by
  cases declaration with
  | priority first order second => cases order <;> simp [Declaration.Ranks,RanksBy,Declaration.sides?]
  | net | node | note => simp [Declaration.Ranks,Declaration.sides?]

theorem ranked_exact (declarations : List Declaration) (upper lower : String) :
    Ranked declarations upper lower ↔ ∃ declaration ∈ declarations, declaration.Ranks upper lower :=
  exists_congr fun declaration => and_congr_right fun _ => (ranks_sides declaration).symm

theorem ranked_restated (restated : Restated declarations others) (ranked : Ranked declarations upper lower) :
    Ranked others upper lower := by
  obtain ⟨declaration,member,greater,lesser,sides,above,beneath⟩ := ranked
  obtain ⟨other,inOthers,_,_,same,greaterSame,lesserSame⟩ := restated declaration member greater lesser sides
  exact ⟨other,inOthers,_,_,same,(greaterSame upper).mp above,(lesserSame lower).mp beneath⟩

end Script

namespace Net

variable {net : Net} {strict : Bool} {text : String} {declarations : List Declaration} {upper lower : String} {t u : Nat}

theorem declared_ranked (declared : Declared strict text net declarations) (upper lower : String) :
    Ranked declarations upper lower ↔ net.Ranks upper lower :=
  (ranked_exact declarations upper lower).trans (declared_ranks declared upper lower).symm

theorem ranks_named (sound : net.Sound) : net.Ranks upper lower ↔
    ∃ t u, net.transitions[t]? = some upper ∧ net.transitions[u]? = some lower ∧ Below net.prio t u := by
  unfold Ranks transitionIndex?
  simp only [number_exact _ sound.transitionNames]

theorem below_named (sound : net.Sound) (below : Below net.prio t u) :
    ∃ upper lower, net.transitions[t]? = some upper ∧ net.transitions[u]? = some lower := by
  have inside : t < net.transitions.size := sound.tabled.prio ▸ lowerOf_inside (List.ne_nil_of_mem below)
  have beneath : u < net.transitions.size := sound.tabled.prio ▸ (inTable_exact _).mp sound.inTable t u below
  exact ⟨_,_,Array.getElem?_eq_getElem inside,Array.getElem?_eq_getElem beneath⟩

theorem below_ranks (sound : net.Sound) : Below net.prio t u ↔
    ∃ upper lower, net.transitions[t]? = some upper ∧ net.transitions[u]? = some lower ∧ net.Ranks upper lower := by
  constructor
  · intro below
    obtain ⟨upper,lower,above,beneath⟩ := below_named sound below
    exact ⟨upper,lower,above,beneath,(ranks_known sound above beneath).mpr below⟩
  · intro ranks
    obtain ⟨upper,lower,above,beneath,pair⟩ := ranks
    exact (ranks_known sound above beneath).mp pair

theorem name_unique (sound : net.Sound) (known : net.transitions[t]? = some upper) (same : net.transitions[u]? = some upper) :
    t = u := stands_once sound.transitionNames known same

theorem ranks_path (sound : net.Sound) (path : TransGen net.Ranks upper lower) :
    ∃ t u, net.transitions[t]? = some upper ∧ net.transitions[u]? = some lower ∧ TransGen (Below net.prio) t u := by
  induction path with
  | single ranks =>
    obtain ⟨t,u,above,beneath,below⟩ := (ranks_named sound).mp ranks
    exact ⟨t,u,above,beneath,.single below⟩
  | tail _ ranks ih =>
    obtain ⟨t,u,above,known,path⟩ := ih
    obtain ⟨v,w,same,beneath,below⟩ := (ranks_named sound).mp ranks
    cases name_unique sound known same
    exact ⟨t,w,above,beneath,path.tail below⟩

theorem path_ranks (sound : net.Sound) (path : TransGen (Below net.prio) t u) :
    ∃ upper lower, net.transitions[t]? = some upper ∧ net.transitions[u]? = some lower ∧ TransGen net.Ranks upper lower := by
  induction path with
  | single below =>
    obtain ⟨upper,lower,above,beneath,ranks⟩ := (below_ranks sound).mp below
    exact ⟨upper,lower,above,beneath,.single ranks⟩
  | tail _ below ih =>
    obtain ⟨upper,middle,above,known,path⟩ := ih
    obtain ⟨same,lower,knownSame,beneath,ranks⟩ := (below_ranks sound).mp below
    cases known.symm.trans knownSame
    exact ⟨upper,lower,above,beneath,path.tail ranks⟩

theorem acyclic_named (sound : net.Sound) : Acyclic net.prio ↔ ∀ name, ¬ TransGen net.Ranks name name := by
  constructor
  · intro acyclic name cycle
    obtain ⟨t,u,known,same,path⟩ := ranks_path sound cycle
    cases name_unique sound known same
    exact acyclic t path
  · intro acyclic t cycle
    obtain ⟨upper,lower,known,same,path⟩ := path_ranks sound cycle
    cases known.symm.trans same
    exact acyclic upper path

theorem parse_priorities (strict : Bool) (text : String) (net : Net) (parsed : (parse strict text).value = .ok net) :
    ∃ declarations, Spells declarations text ∧ (∀ others, Spells others text → others = declarations) ∧
      net.prio.size = net.transitions.size ∧
      (∀ (t : Nat) (row : List Nat), net.prio[t]? = some row → Increasing row ∧ ∀ u, u ∈ row ↔
        ∃ upper lower, net.transitions[t]? = some upper ∧ net.transitions[u]? = some lower ∧
          Ranked declarations upper lower) ∧
      (∀ upper lower, Ranked declarations upper lower → upper ∈ net.transitions ∧ lower ∈ net.transitions) ∧
      (∀ strict' other net', (parse strict' other).value = .ok net' → ∀ others, Spells others other →
        Restated declarations others → Restated others declarations →
          ∀ upper lower, net'.Ranks upper lower ↔ net.Ranks upper lower) ∧
      closeInPlace net.prio net.transitions = .ok net.closePriorities.2 ∧
      ((∃ passes, net.closePriorities.2.passes = .ok passes) ↔
        ∀ name, ¬ TransGen (Ranked declarations) name name) := by
  obtain ⟨declarations,declared⟩ := parse_declared parsed
  have sound := declared.sound
  have ranked := declared_ranked declared
  refine ⟨declarations,declared.spells,fun others spells => spells_unique spells declared.spells,sound.tabled.prio,
    ?_,?_,?_,closeInPlace_exact net.prio net.transitions sound.ordered,?_⟩
  · intro t row found
    have same : lowerOf net.prio t = row := by rw [lowerOf,found,Option.getD_some]
    refine ⟨same ▸ (ordered_exact _).mp sound.ordered t,fun u => ?_⟩
    simp only [← same,ranked]
    exact below_ranks sound
  · intro upper lower pair
    obtain ⟨t,u,above,beneath,_⟩ := (ranks_named sound).mp ((ranked upper lower).mp pair)
    exact ⟨Array.mem_of_getElem? above,Array.mem_of_getElem? beneath⟩
  · intro strict' other net' parsedOther others spells there back upper lower
    obtain ⟨_,declaredOther⟩ := parse_declared parsedOther
    cases spells_unique declaredOther.spells spells
    rw [← ranked,← declared_ranked declaredOther]
    exact ⟨ranked_restated back,ranked_restated there⟩
  · have same : Ranked declarations = net.Ranks := funext fun upper => funext fun lower => propext (ranked upper lower)
    rw [same,← acyclic_named sound]
    exact (close_succeeds net.prio net.transitions sound.ordered).trans (grounded_all_exact net.prio sound.inTable)

-- Priorities with names that come again. The second text says the same the other way around.
def staggered : List Declaration := [.priority ["a","b","a"] .above ["c"],.priority ["b"] .below ["a","a"]]

def restaggered : List Declaration := [.priority ["b","b"] .below ["a"],.priority ["c"] .below ["b","a"]]

def ranking (names : Array String) (prio : Relation) : Net :=
  ⟨"",#[],#[],names,names.map fun _ => "",names.map fun _ => .unconstrained,names.map fun _ => .empty,
    names.map fun _ => .empty,names.map fun _ => .empty,names.map fun _ => .empty,.empty,prio⟩

theorem parse_priorities_staggered :
    (parse false "pr a b a > c pr b < a a").value = .ok (ranking #["a","b","c"] #[[1,2],[2],[]]) ∧
      (parse false "pr b b < a pr c < b a").value = .ok (ranking #["b","a","c"] #[[2],[0,2],[]]) ∧
      (∀ u, u ∈ [1,2] ↔ ∃ lower, #["a","b","c"][u]? = some lower ∧ Ranked staggered "a" lower) ∧
      (∀ upper lower, (ranking #["b","a","c"] #[[2],[0,2],[]]).Ranks upper lower ↔
        (ranking #["a","b","c"] #[[1,2],[2],[]]).Ranks upper lower) ∧
      ∀ name, ¬ TransGen (Ranked staggered) name name := by
  have parsed : (parse false "pr a b a > c pr b < a a").value = .ok (ranking #["a","b","c"] #[[1,2],[2],[]]) := by cbv
  have parsedOther : (parse false "pr b b < a pr c < b a").value = .ok (ranking #["b","a","c"] #[[2],[0,2],[]]) := by cbv
  have spells : Spells staggered "pr a b a > c pr b < a a" := by cbv
  have spellsOther : Spells restaggered "pr b b < a pr c < b a" := by cbv
  have names : ∀ name, name ∈ ["a","b","a"] ↔ name ∈ ["b","a"] := by simp
  have twice : ∀ name, name ∈ ["a","a"] ↔ name ∈ ["a"] := by simp
  have double : ∀ name, name ∈ ["b"] ↔ name ∈ ["b","b"] := by simp
  have there : Restated staggered restaggered := by
    intro declaration member greater lesser sides
    rcases List.mem_pair.mp member with rfl | rfl <;> cases sides
    · exact ⟨_,List.mem_pair.mpr (.inr rfl),_,_,rfl,names,fun _ => Iff.rfl⟩
    · exact ⟨_,List.mem_pair.mpr (.inl rfl),_,_,rfl,twice,double⟩
  have back : Restated restaggered staggered := by
    intro declaration member greater lesser sides
    rcases List.mem_pair.mp member with rfl | rfl <;> cases sides
    · exact ⟨_,List.mem_pair.mpr (.inr rfl),_,_,rfl,fun name => (twice name).symm,fun name => (double name).symm⟩
    · exact ⟨_,List.mem_pair.mpr (.inl rfl),_,_,rfl,fun name => (names name).symm,fun _ => Iff.rfl⟩
  obtain ⟨declarations,_,unique,_,rows,_,restated,_,closes⟩ := parse_priorities _ _ _ parsed
  cases unique _ spells
  refine ⟨parsed,parsedOther,fun u => ?_,restated _ _ _ parsedOther _ spellsOther there back,closes.mp ⟨2,by cbv⟩⟩
  rw [(rows 0 [1,2] rfl).2 u]
  constructor
  · intro ranked
    obtain ⟨upper,lower,above,beneath,pair⟩ := ranked
    cases above
    exact ⟨lower,beneath,pair⟩
  · intro ranked
    obtain ⟨lower,beneath,pair⟩ := ranked
    exact ⟨"a",lower,rfl,beneath,pair⟩

end Net

end TimePetri
