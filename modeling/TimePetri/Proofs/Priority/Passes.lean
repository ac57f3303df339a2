import Mathlib.Data.List.Chain
import TimePetri.Proofs.Priority.InPlace

namespace TimePetri.Priority

open Relation (TransGen)

-- The passes of a closure. Listed are the transitions that are open at the start and
-- behind each pass that completes some. A pass that completes none is the last.
inductive Sweeps (names : Array String) : Relation → List Nat → List Nat → Nat → List (List Nat) → Closure → Prop where
  | finished (relation : Relation) (final : List Nat) (passes : Nat) :
      Sweeps names relation final [] passes [[]] ⟨relation,.ok passes⟩
  | stopped {relation : Relation} {final work : List Nat} {passes : Nat} {sweep : Sweep} {flaw : Flaw}
      (left : work ≠ []) (swept : sweepAll relation final work = .ok sweep) (same : sweep.left.length = work.length)
      (diagnosed : diagnose sweep.relation names work = .ok flaw) :
      Sweeps names relation final work passes [work] ⟨sweep.relation,.error flaw⟩
  | further {relation : Relation} {final work : List Nat} {passes : Nat} {sweep : Sweep} {lists : List (List Nat)}
      {closure : Closure} (left : work ≠ []) (swept : sweepAll relation final work = .ok sweep)
      (fewer : sweep.left.length ≠ work.length)
      (rest : Sweeps names sweep.relation sweep.final sweep.left (passes + 1) lists closure) :
      Sweeps names relation final work passes (work :: lists) closure

-- A whole closure. There are no passes if nothing is open, or if everything is.
inductive Runs (relation : Relation) (names : Array String) : List (List Nat) → Closure → Prop where
  | bare {final : List Nat} (divided : divide relation (List.range relation.size) = .ok (final,[])) :
      Runs relation names [[]] ⟨relation,.ok 0⟩
  | baseless {work : List Nat} (divided : divide relation (List.range relation.size) = .ok ([],work)) (left : work ≠ []) :
      Runs relation names [work] ⟨relation,.error .noMinimal⟩
  | sweeps {final work : List Nat} {lists : List (List Nat)} {closure : Closure}
      (divided : divide relation (List.range relation.size) = .ok (final,work)) (left : work ≠ []) (bottom : final ≠ [])
      (sweeps : Sweeps names relation final work 0 lists closure) : Runs relation names lists closure

-- No chain that goes down from a transition has more steps than so many.
def Within (relation : Relation) (steps t : Nat) : Prop :=
  ∀ rest, (t :: rest).IsChain (Below relation) → rest.length ≤ steps

variable {origin relation : Relation} {names : Array String} {final work : List Nat} {passes last steps t upper lower : Nat} {lists : List (List Nat)}
  {closure : Closure}

theorem Sweeps.answer (sweeps : Sweeps names relation final work passes lists closure) :
    closeInPlaceFrom relation names final work passes = .ok closure := by
  induction sweeps with
  | finished relation final passes => rw [closeInPlaceFrom,if_pos rfl]
  | stopped left swept same diagnosed =>
    rw [closeInPlaceFrom,if_neg left]
    split
    · next failed => rw [swept] at failed; cases failed
    · next done =>
      rw [swept] at done
      cases done
      rw [if_pos same,diagnosed]
      rfl
  | further left swept fewer rest ih =>
    rw [closeInPlaceFrom,if_neg left]
    split
    · next failed => rw [swept] at failed; cases failed
    · next done =>
      rw [swept] at done
      cases done
      rw [if_neg fewer]
      exact ih

theorem Sweeps.shrinks (sweeps : Sweeps names relation final work passes lists closure) :
    (∃ rest, lists = work :: rest) ∧ lists.IsChain (fun before after => after.length < before.length) ∧
      lists.length ≤ work.length + 1 := by
  induction sweeps with
  | finished relation final passes => exact ⟨⟨[],rfl⟩,.singleton _,Nat.le_refl _⟩
  | stopped left swept same diagnosed => exact ⟨⟨[],rfl⟩,.singleton _,by simp⟩
  | @further relation final work passes sweep lists closure left swept fewer rest ih =>
    obtain ⟨⟨more,first⟩,shorter,bound⟩ := ih
    have less : sweep.left.length < work.length := by
      have most := sweepAll_left final work _ sweep swept
      simp only [List.length_nil,Nat.zero_add] at most
      omega
    refine ⟨⟨lists,rfl⟩,?_,?_⟩
    · rw [first] at shorter ⊢
      exact .cons_cons less shorter
    · rw [List.length_cons]
      omega

theorem Sweeps.counts (sweeps : Sweeps names relation final work passes lists closure) (ended : closure.passes = .ok last) :
    passes + lists.length = last + 1 := by
  induction sweeps with
  | finished relation final passes => cases ended; rfl
  | stopped left swept same diagnosed => cases ended
  | further left swept fewer rest ih =>
    have counted := ih ended
    rw [List.length_cons]
    omega

theorem Standing.listed (standing : Standing origin relation final work) {listed : List Nat}
    (same : ∀ t, t ∈ listed ↔ t ∈ final) : Standing origin relation listed work := by
  refine { standing with covers := fun t => ?_, apart := fun t member => standing.apart t ((same t).mp member) }
  rw [standing.covers,same]

theorem swept_standing (standing : Standing origin relation final work) :
    Standing origin (pass relation (readyAmong relation final work)) ((readyAmong relation final work).foldl insert final)
      (openAmong relation final work) :=
  (pass_standing standing).listed fun t => by rw [inserted_member,List.mem_append]

theorem sweeps_always (names : Array String) {origin relation : Relation} {final work : List Nat} (standing : Standing origin relation final work)
    (increasing : Increasing final) (passes : Nat) :
    ∃ lists closure, Sweeps names relation final work passes lists closure := by
  by_cases left : work = []
  · subst left
    exact ⟨[[]],_,.finished relation final passes⟩
  · have swept := sweepAll_pass standing increasing fun _ => Iff.rfl
    by_cases none : readyAmong relation final work = []
    · have same := (openAmong_length relation final work).mpr none
      rw [none] at swept
      exact ⟨[work],_,.stopped left swept same (diagnose_exact relation names work fun t => standing.inside)⟩
    · obtain ⟨lists,closure,rest⟩ :=
        sweeps_always names (swept_standing standing) (inserted_increasing _ _ increasing) (passes + 1)
      exact ⟨work :: lists,closure,.further left swept (mt (openAmong_length relation final work).mp none) rest⟩
termination_by work.length
decreasing_by exact openAmong_shorter _ _ _ none

theorem divided (relation : Relation) : divide relation (List.range relation.size) =
    .ok ((List.range relation.size).filter (isBottom relation),
      (List.range relation.size).filter fun t => !isBottom relation t) :=
  divide_exact relation _ fun _ member => List.mem_range.mp member

theorem start_increasing (relation : Relation) : Increasing ((List.range relation.size).filter (isBottom relation)) :=
  List.Pairwise.filter _ (range_increasing _)

theorem Runs.answer (runs : Runs relation names lists closure) : closeInPlace relation names = .ok closure := by
  unfold closeInPlace
  cases runs with
  | bare divided => rw [divided]; rfl
  | baseless divided left =>
    rw [divided,ok_bind]
    dsimp only
    rw [if_neg left]
    rfl
  | sweeps divided left bottom sweeps =>
    rw [divided,ok_bind]
    dsimp only
    rw [if_neg left,if_neg bottom]
    exact sweeps.answer

theorem runs_always (relation : Relation) (names : Array String) : ∃ lists closure, Runs relation names lists closure := by
  have divided := divided relation
  have standing := start_standing relation
  have increasing := start_increasing relation
  generalize (List.range relation.size).filter (isBottom relation) = final at divided standing increasing
  generalize ((List.range relation.size).filter fun t => !isBottom relation t) = work at divided standing
  by_cases left : work = []
  · subst left
    exact ⟨[[]],_,.bare divided⟩
  · by_cases bottom : final = []
    · subst bottom
      exact ⟨[work],_,.baseless divided left⟩
    · obtain ⟨lists,closure,sweeps⟩ := sweeps_always names standing increasing 0
      exact ⟨lists,closure,.sweeps divided left bottom sweeps⟩

theorem Runs.shrinks (runs : Runs relation names lists closure) :
    lists.IsChain fun before after => after.length < before.length := by
  cases runs with
  | bare divided => exact .singleton _
  | baseless divided left => exact .singleton _
  | sweeps divided left bottom sweeps => exact sweeps.shrinks.2.1

theorem Runs.counts (runs : Runs relation names lists closure) (ended : closure.passes = .ok last) :
    lists.length = last + 1 := by
  cases runs with
  | bare divided => cases ended; rfl
  | baseless divided left => cases ended
  | sweeps divided left bottom sweeps =>
    have counted := sweeps.counts ended
    omega

theorem within_bottom : Within relation 0 t ↔ lowerOf relation t = [] := by
  constructor
  · intro within
    refine List.eq_nil_iff_forall_not_mem.mpr fun u below => ?_
    have longer := within [u] (.cons_cons below (.singleton u))
    simp at longer
  · intro empty rest chain
    cases chain with
    | singleton => exact Nat.le_refl _
    | cons_cons below tail => simp [Below,empty] at below

theorem within_next : Within relation (steps + 1) t ↔ ∀ u, Below relation t u → Within relation steps u := by
  constructor
  · intro within u below rest chain
    exact Nat.le_of_succ_le_succ (within (u :: rest) (.cons_cons below chain))
  · intro lower rest chain
    cases chain with
    | singleton => exact Nat.zero_le _
    | cons_cons below tail => exact Nat.succ_le_succ (lower _ below _ tail)

theorem within_more (within : Within relation steps t) : Within relation (steps + 1) t :=
  fun rest chain => Nat.le_succ_of_le (within rest chain)

-- Behind so many passes those are final from which no chain is longer.
def Levelled (origin : Relation) (passes : Nat) (final : List Nat) : Prop :=
  ∀ t, t ∈ final ↔ t < origin.size ∧ Within origin passes t

theorem pass_levelled (inTable : InTable origin) (standing : Standing origin relation final work)
    (levelled : Levelled origin passes final) :
    Levelled origin (passes + 1) ((readyAmong relation final work).foldl insert final) := by
  intro t
  rw [inserted_member,ready_member]
  constructor
  · intro member
    rcases member with old | ⟨inWork,lower⟩
    · obtain ⟨inside,within⟩ := (levelled t).mp old
      exact ⟨inside,within_more within⟩
    · refine ⟨(standing.covers t).mpr (.inr inWork),within_next.mpr fun u below => ?_⟩
      unfold Below at below lower
      rw [← standing.kept t inWork] at below
      exact ((levelled u).mp (lower u below)).2
  · intro member
    obtain ⟨inside,within⟩ := member
    rcases (standing.covers t).mp inside with done | inWork
    · exact .inl done
    · refine .inr ⟨inWork,fun u below => ?_⟩
      unfold Below at below
      rw [standing.kept t inWork] at below
      exact (levelled u).mpr ⟨(inTable_exact origin).mp inTable t u below,within_next.mp within u below⟩

-- Without a cycle all passes but the last leave something open, so that some chain is as
-- long as there are passes.
theorem Sweeps.levels (inTable : InTable origin) (grounded : ∀ t, t < origin.size → Grounded origin t)
    (standing : Standing origin relation final work) (increasing : Increasing final)
    (levelled : Levelled origin passes final) (sweeps : Sweeps names relation final work passes lists closure) :
    ∃ last, closure.passes = .ok last ∧ (∀ t, t < origin.size → Within origin last t) ∧
      (work = [] ∧ last = passes ∨ ∃ before, last = before + 1 ∧ ∃ t, ¬ Within origin before t) := by
  induction sweeps with
  | finished relation final passes =>
    refine ⟨passes,rfl,fun t inside => ?_,.inl ⟨rfl,rfl⟩⟩
    have done := ((standing.covers t).mp inside).resolve_right List.not_mem_nil
    exact ((levelled t).mp done).2
  | stopped left swept same diagnosed =>
    rw [sweepAll_pass standing increasing fun _ => Iff.rfl] at swept
    cases swept
    obtain ⟨t,inWork⟩ := List.exists_mem_of_ne_nil _ left
    have done := standing.finished ((openAmong_length _ _ _).mp same) (grounded t ((standing.covers t).mpr (.inr inWork)))
    exact absurd inWork (standing.apart t done)
  | @further relation final work passes sweep lists closure left swept fewer rest ih =>
    rw [sweepAll_pass standing increasing fun _ => Iff.rfl] at swept
    cases swept
    obtain ⟨last,ended,within,some⟩ := ih (swept_standing standing) (inserted_increasing _ _ increasing)
      (pass_levelled inTable standing levelled)
    refine ⟨last,ended,within,.inr ?_⟩
    rcases some with ⟨_,rfl⟩ | longer
    · obtain ⟨t,inWork⟩ := List.exists_mem_of_ne_nil _ left
      refine ⟨passes,rfl,t,fun short => ?_⟩
      exact standing.apart t ((levelled t).mpr ⟨(standing.covers t).mpr (.inr inWork),short⟩) inWork
    · exact longer

theorem start_levelled (relation : Relation) :
    Levelled relation 0 ((List.range relation.size).filter (isBottom relation)) := by
  intro t
  rw [List.mem_filter,List.mem_range,bottom_exact,within_bottom]

theorem grounded_bottom (grounded : Grounded relation t) : ∃ u, u < relation.size ∧ lowerOf relation u = [] := by
  induction grounded with
  | intro t inTable _ ih =>
    by_cases empty : lowerOf relation t = []
    · exact ⟨t,inTable,empty⟩
    · obtain ⟨u,below⟩ := List.exists_mem_of_ne_nil _ empty
      exact ih u below

theorem long_chain (long : ¬ Within relation steps t) :
    ∃ chain : List Nat, chain.IsChain (Below relation) ∧ chain.length = steps + 2 := by
  unfold Within at long
  push Not at long
  obtain ⟨rest,chain,more⟩ := long
  refine ⟨(t :: rest).take (steps + 2),chain.take _,?_⟩
  rw [List.length_take,List.length_cons]
  omega

theorem chain_within (within : ∀ t, t < relation.size → Within relation steps t) (chain : List Nat)
    (descends : chain.IsChain (Below relation)) : chain.length ≤ steps + 1 := by
  cases chain with
  | nil => exact Nat.zero_le _
  | cons t rest =>
    by_cases inside : t < relation.size
    · exact Nat.succ_le_succ (within t inside rest descends)
    · have alone := within_bottom.mpr (lowerOf_outside relation t inside) rest descends
      rw [List.length_cons]
      omega

theorem Runs.swept (nonempty : lowerOf relation upper ≠ []) (empty : lowerOf relation lower = [])
    (inside : lower < relation.size) (runs : Runs relation names lists closure) :
    (List.range relation.size).filter (isBottom relation) ≠ [] ∧
      ((List.range relation.size).filter fun t => !isBottom relation t) ≠ [] ∧
      Sweeps names relation ((List.range relation.size).filter (isBottom relation))
        ((List.range relation.size).filter fun t => !isBottom relation t) 0 lists closure := by
  have above : upper ∈ (List.range relation.size).filter fun t => !isBottom relation t := by
    simp [lowerOf_inside nonempty,isBottom,nonempty]
  have beneath : lower ∈ (List.range relation.size).filter (isBottom relation) := by simp [inside,isBottom,empty]
  cases runs with
  | bare divided =>
    rw [Priority.divided] at divided
    rw [(Prod.mk.inj (Except.ok.inj divided)).2] at above
    exact absurd above List.not_mem_nil
  | baseless divided left =>
    rw [Priority.divided] at divided
    rw [(Prod.mk.inj (Except.ok.inj divided)).1] at beneath
    exact absurd beneath List.not_mem_nil
  | sweeps divided left bottom sweeps =>
    rw [Priority.divided] at divided
    cases divided
    exact ⟨bottom,left,sweeps⟩

theorem open_fewer (bottom : (List.range relation.size).filter (isBottom relation) ≠ []) :
    ((List.range relation.size).filter fun t => !isBottom relation t).length < relation.size := by
  obtain ⟨t,done⟩ := List.exists_mem_of_ne_nil _ bottom
  obtain ⟨inRange,empty⟩ := List.mem_filter.mp done
  have fewer : ((List.range relation.size).filter fun t => !isBottom relation t).length <
      (List.range relation.size).length := List.length_filter_lt_length_iff_exists.mpr ⟨t,inRange,by simp [empty]⟩
  rwa [List.length_range] at fewer

theorem Runs.levels (inTable : InTable relation) (grounded : ∀ t, t < relation.size → Grounded relation t)
    (nonempty : lowerOf relation upper ≠ []) (runs : Runs relation names lists closure) :
    ∃ before, closure.passes = .ok (before + 1) ∧ (∀ t, t < relation.size → Within relation (before + 1) t) ∧
      (∃ t, ¬ Within relation before t) ∧ before + 1 < relation.size := by
  obtain ⟨lower,inside,empty⟩ := grounded_bottom (grounded upper (lowerOf_inside nonempty))
  obtain ⟨bottom,left,sweeps⟩ := runs.swept nonempty empty inside
  obtain ⟨last,ended,within,longest⟩ := sweeps.levels inTable grounded (start_standing relation)
    (start_increasing relation) (start_levelled relation)
  obtain ⟨before,rfl,long⟩ := longest.resolve_left fun none => left none.1
  have counted := sweeps.counts ended
  have bound := sweeps.shrinks.2.2
  have fewer := open_fewer bottom
  exact ⟨before,ended,within,long,by omega⟩

theorem close_passes (relation : Relation) (names : Array String) :
    (∃ lists closure, Runs relation names lists closure) ∧
    (∀ lists closure, Runs relation names lists closure → closeInPlace relation names = .ok closure ∧
      lists.IsChain (fun before after => after.length < before.length) ∧
      ∀ passes, closure.passes = .ok passes → lists.length = passes + 1) ∧
    (InTable relation → (∀ t, ¬ TransGen (Below relation) t t) → (∃ t, lowerOf relation t ≠ []) →
      ∃ closed passes, closeInPlace relation names = .ok ⟨closed,.ok passes⟩ ∧
        Closure.events ⟨closed,.ok passes⟩ = [⟨.debug,s!"Closed priority relation in {passes} passes."⟩] ∧
        (∃ chain : List Nat, chain.IsChain (Below relation) ∧ chain.length = passes + 1) ∧
        (∀ chain : List Nat, chain.IsChain (Below relation) → chain.length ≤ passes + 1) ∧
        passes < relation.size) := by
  refine ⟨runs_always relation names,fun lists closure runs => ⟨runs.answer,runs.shrinks,fun _ => runs.counts⟩,?_⟩
  intro inTable acyclic some
  obtain ⟨upper,nonempty⟩ := some
  obtain ⟨lists,⟨closed,result⟩,runs⟩ := runs_always relation names
  have grounded := (grounded_all_exact relation inTable).mpr acyclic
  obtain ⟨before,ended,within,⟨t,long⟩,fewer⟩ := runs.levels inTable grounded nonempty
  cases ended
  exact ⟨closed,before + 1,runs.answer,rfl,long_chain long,chain_within within,fewer⟩

-- The longest of these chains leads from the fifth transition over the first to the fourth.
theorem close_passes_three :
    ∃ closed, closeInPlace #[[1,2],[3],[3],[],[0]] #["a","b"] = .ok ⟨closed,.ok 3⟩ ∧
      ∀ chain : List Nat, chain.IsChain (Below #[[1,2],[3],[3],[],[0]]) → chain.length ≤ 4 := by
  have ordered : Ordered #[[1,2],[3],[3],[],[0]] := by decide
  have inTable : InTable #[[1,2],[3],[3],[],[0]] := by decide
  have nonempty : lowerOf #[[1,2],[3],[3],[],[0]] 0 ≠ [] := by decide
  have three : close #[[1,2],[3],[3],[],[0]] #["a","b"] = ⟨#[[1,2,3],[3],[3],[],[0,1,2,3]],.ok 3⟩ := by cbv
  have acyclic := (grounded_all_exact _ inTable).mp ((close_succeeds _ _ ordered).mp ⟨3,by rw [three]⟩)
  obtain ⟨closed,passes,answer,_,_,longest,_⟩ := (close_passes _ #["a","b"]).2.2 inTable acyclic ⟨0,nonempty⟩
  have same := closeInPlace_exact _ #["a","b"] ordered
  rw [three,answer] at same
  cases same
  exact ⟨_,answer,longest⟩

end TimePetri.Priority
