import Mathlib.Data.Fintype.EquivFin
import Mathlib.Logic.Relation
import Mathlib.Order.WellFounded
import TimePetri.Proofs.Priority.Increasing

namespace TimePetri.Priority

open Relation (TransGen ReflTransGen)

-- A transition stands directly below another if the other's list names it.
def Below (relation : Relation) (t u : Nat) : Prop := u ∈ lowerOf relation t

def Acyclic (relation : Relation) : Prop := ∀ t, ¬ TransGen (Below relation) t t

theorem lists_exact (relation : Relation) (P : List Nat → Prop) (empty : P []) :
    (∀ row ∈ relation.toList, P row) ↔ ∀ t, P (lowerOf relation t) := by
  constructor
  · intro all t
    unfold lowerOf
    cases found : relation[t]? with
    | none => exact empty
    | some row => exact all row (Array.mem_toList_iff.mpr (Array.mem_of_getElem? found))
  · intro all row member
    obtain ⟨t,inside,found⟩ := Array.mem_iff_getElem.mp (Array.mem_toList_iff.mp member)
    have here := all t
    rw [lowerOf,Array.getElem?_eq_getElem inside,found] at here
    exact here

def Ordered (relation : Relation) : Prop := ∀ row ∈ relation.toList, Increasing row

def InTable (relation : Relation) : Prop := ∀ row ∈ relation.toList, ∀ u ∈ row, u < relation.size

instance (relation : Relation) : Decidable (Ordered relation) := inferInstanceAs (Decidable (∀ row ∈ _, _))

instance (relation : Relation) : Decidable (InTable relation) := inferInstanceAs (Decidable (∀ row ∈ _, _))

theorem ordered_exact (relation : Relation) : Ordered relation ↔ ∀ t, Increasing (lowerOf relation t) :=
  lists_exact relation Increasing increasing_nil

theorem inTable_exact (relation : Relation) : InTable relation ↔ ∀ t u, Below relation t u → u < relation.size :=
  lists_exact relation (fun row => ∀ u ∈ row, u < relation.size) (by simp)

-- Every way down from a transition comes to an end, and none leaves the table.
def Resolvable (relation : Relation) (t : Nat) : Prop :=
  (∀ path : Nat → Nat, path 0 = t → ¬ ∀ k, Below relation (path k) (path (k + 1))) ∧
    ∀ u, ReflTransGen (Below relation) t u → u < relation.size

-- The same by steps: a transition of the table is grounded once all below it are.
inductive Grounded (relation : Relation) : Nat → Prop where
  | intro (t : Nat) (inTable : t < relation.size) (lower : ∀ u, Below relation t u → Grounded relation u) :
      Grounded relation t

theorem grounded_inTable (grounded : Grounded relation t) : t < relation.size := by
  cases grounded with
  | intro _ inTable _ => exact inTable

theorem grounded_below (grounded : Grounded relation t) (below : Below relation t u) : Grounded relation u := by
  cases grounded with
  | intro _ _ lower => exact lower u below

theorem grounded_reach (grounded : Grounded relation t) (reach : ReflTransGen (Below relation) t u) :
    Grounded relation u := by
  induction reach with
  | refl => exact grounded
  | tail _ below ih => exact grounded_below ih below

-- A path without end could be shortened by its first step over and over.
theorem grounded_ends (grounded : Grounded relation t) (path : Nat → Nat) (start : path 0 = t) :
    ¬ ∀ k, Below relation (path k) (path (k + 1)) := by
  induction grounded generalizing path with
  | intro t _ _ ih =>
    intro descends
    have first : Below relation t (path 1) := by simpa [start] using descends 0
    exact ih (path 1) first (fun k => path (k + 1)) rfl (fun k => descends (k + 1))

theorem resolvable_grounded (resolvable : Resolvable relation t) : Grounded relation t := by
  obtain ⟨ends,inTable⟩ := resolvable
  have accessible : Acc (fun u t => Below relation t u) t := by
    apply Classical.byContradiction
    intro stuck
    obtain ⟨path,start,descends⟩ := not_acc_iff_exists_descending_chain.mp stuck
    exact ends path start descends
  induction accessible with
  | intro t _ ih =>
    refine .intro t (inTable t .refl) ?_
    intro u below
    refine ih u below ?_ fun v reach => inTable v (.head below reach)
    intro path start descends
    refine ends (fun k => match k with | 0 => t | k + 1 => path k) rfl ?_
    intro k
    cases k with
    | zero => simpa [start] using below
    | succ k => exact descends k

theorem resolvable_exact (relation : Relation) (t : Nat) : Resolvable relation t ↔ Grounded relation t := by
  refine ⟨resolvable_grounded,fun grounded => ⟨grounded_ends grounded,?_⟩⟩
  intro u reach
  exact grounded_inTable (grounded_reach grounded reach)

theorem grounded_acyclic (grounded : Grounded relation t) : ¬ TransGen (Below relation) t t := by
  induction grounded with
  | intro t _ _ ih =>
    intro cycle
    obtain ⟨u,below,back⟩ := TransGen.head'_iff.mp cycle
    exact ih u below (.tail' back below)

theorem acyclic_grounded (acyclic : Acyclic relation) (inTable : InTable relation) (t : Nat)
    (inside : t < relation.size) : Grounded relation t := by
  let above : Fin relation.size → Fin relation.size → Prop := fun u t => TransGen (Below relation) t.val u.val
  have transitive : IsTrans _ above := ⟨fun _ _ _ left right => right.trans left⟩
  have irreflexive : Std.Irrefl above := ⟨fun t => acyclic t.val⟩
  -- The table is finite, so that a relation without a cycle is well founded on it.
  have founded : WellFounded above := Finite.wellFounded_of_trans_of_irrefl above
  have all : ∀ k : Fin relation.size, Grounded relation k.val := by
    intro k
    induction k using founded.induction with
    | _ k ih =>
      refine .intro k.val k.isLt ?_
      intro u below
      exact ih ⟨u,(inTable_exact _).mp inTable _ _ below⟩ (.single below)
  exact all ⟨t,inside⟩

theorem grounded_all_exact (relation : Relation) (inTable : InTable relation) :
    (∀ t, t < relation.size → Grounded relation t) ↔ Acyclic relation := by
  constructor
  · intro grounded t cycle
    have inside : t < relation.size := by
      obtain ⟨u,_,below⟩ := TransGen.tail'_iff.mp cycle
      exact (inTable_exact _).mp inTable u t below
    exact grounded_acyclic (grounded t inside) cycle
  · intro acyclic t inside
    exact acyclic_grounded acyclic inTable t inside

end TimePetri.Priority
