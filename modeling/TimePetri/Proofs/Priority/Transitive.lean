import TimePetri.Proofs.Priority.InPlace

namespace TimePetri.Priority

open Relation (TransGen ReflTransGen)

theorem relation_exact (relation other : Relation) (size : relation.size = other.size)
    (same : ∀ t, lowerOf relation t = lowerOf other t) : relation = other := by
  refine Array.ext size fun t inside otherInside => ?_
  have here := same t
  rwa [lowerOf,lowerOf,Array.getElem?_eq_getElem inside,Array.getElem?_eq_getElem otherInside] at here

theorem complete_outside (relation closed : Relation) (size : closed.size = relation.size) (t : Nat)
    (outside : ¬ t < relation.size) : Complete relation t (lowerOf closed t) := by
  rw [lowerOf_outside closed t (size ▸ outside),← lowerOf_outside relation t outside]
  exact bottom_complete relation t (lowerOf_outside relation t outside)

structure Closes (relation closed : Relation) : Prop where
  size : closed.size = relation.size
  complete : ∀ t, Complete relation t (lowerOf closed t)

theorem close_closes (relation : Relation) (names : Array String) (ordered : Ordered relation) (passes : Nat)
    (succeeded : (close relation names).passes = .ok passes) : Closes relation (close relation names).relation := by
  have outcome := close_outcome relation names ordered
  refine ⟨outcome.size,fun t => ?_⟩
  by_cases inside : t < relation.size
  · exact outcome.complete t (outcome.succeeded passes succeeded t inside)
  · exact complete_outside _ _ outcome.size t inside

theorem Closes.below (closes : Closes relation closed) (t u : Nat) :
    Below closed t u ↔ TransGen (Below relation) t u := (closes.complete t).exact u

theorem Closes.transitive (closes : Closes relation closed) (left : Below closed t u) (right : Below closed u v) :
    Below closed t v := by
  rw [closes.below] at left right ⊢
  exact left.trans right

theorem Closes.irreflexive (closes : Closes relation closed) (acyclic : Acyclic relation) (t : Nat) :
    ¬ Below closed t t := by
  rw [closes.below]
  exact acyclic t

theorem Closes.path (closes : Closes relation closed) (path : TransGen (Below closed) t u) : Below closed t u := by
  induction path with
  | single below => exact below
  | tail _ below ih => exact closes.transitive ih below

theorem Closes.ordered (closes : Closes relation closed) : Ordered closed :=
  (ordered_exact closed).mpr fun t => (closes.complete t).increasing

theorem Closes.inTable (closes : Closes relation closed) (inTable : InTable relation) : InTable closed := by
  refine (inTable_exact closed).mpr fun t u below => ?_
  obtain ⟨v,_,last⟩ := TransGen.tail'_iff.mp ((closes.below t u).mp below)
  rw [closes.size]
  exact (inTable_exact relation).mp inTable v u last

theorem Closes.unchanged (closes : Closes relation closed) (again : Closes closed other) : other = closed := by
  refine relation_exact _ _ again.size fun t => ?_
  refine increasing_exact _ _ (again.complete t).increasing (closes.complete t).increasing fun u => ?_
  rw [(again.complete t).exact]
  exact ⟨closes.path,fun below => .single below⟩

theorem close_transitive (relation : Relation) (names : Array String) (ordered : Ordered relation) (inTable : InTable relation) :
    closeInPlace relation names = .ok (close relation names) ∧
    ((∃ passes, (close relation names).passes = .ok passes) ↔ ∀ t, ¬ TransGen (Below relation) t t) ∧
    ∀ passes closed, close relation names = ⟨closed,.ok passes⟩ →
      closed.size = relation.size ∧
      (∀ t, Increasing (lowerOf closed t) ∧ ∀ u, u ∈ lowerOf closed t ↔ TransGen (Below relation) t u) ∧
      (∀ t, ¬ Below closed t t) ∧
      (∀ t u v, Below closed t u → Below closed u v → Below closed t v) ∧
      ∃ again, close closed names = ⟨closed,.ok again⟩ := by
  have succeeds := (close_succeeds relation names ordered).trans (grounded_all_exact relation inTable)
  refine ⟨closeInPlace_exact relation names ordered,succeeds,?_⟩
  intro passes closed closure
  have closes : Closes relation closed := by
    have result := close_closes relation names ordered passes (by rw [closure])
    rwa [closure] at result
  have acyclic : Acyclic relation := succeeds.mp ⟨passes,by rw [closure]⟩
  refine ⟨closes.size,fun t => ⟨(closes.complete t).increasing,(closes.complete t).exact⟩,closes.irreflexive acyclic,
    fun t u v => closes.transitive,?_⟩
  have still : Acyclic closed := fun t cycle => closes.irreflexive acyclic t (closes.path cycle)
  obtain ⟨again,succeeded⟩ := (close_succeeds closed names closes.ordered).mpr
    ((grounded_all_exact closed (closes.inTable inTable)).mpr still)
  have same := closes.unchanged (close_closes closed names closes.ordered again succeeded)
  refine ⟨again,?_⟩
  cases second : close closed names with
  | mk other result =>
    rw [second] at same succeeded
    cases same
    cases succeeded
    rfl

theorem close_transitive_levels :
    Ordered #[[1,2],[3],[3],[],[0]] ∧ InTable #[[1,2],[3],[3],[],[0]] ∧
      close #[[1,2],[3],[3],[],[0]] #["a","b"] = ⟨#[[1,2,3],[3],[3],[],[0,1,2,3]],.ok 3⟩ ∧
      ∀ u, u ∈ [0,1,2,3] ↔ TransGen (Below #[[1,2],[3],[3],[],[0]]) 4 u := by
  have closure : close #[[1,2],[3],[3],[],[0]] #["a","b"] = ⟨#[[1,2,3],[3],[3],[],[0,1,2,3]],.ok 3⟩ := by cbv
  refine ⟨by decide,by decide,closure,?_⟩
  exact ((close_transitive _ _ (by decide) (by decide)).2.2 _ _ closure).2.1 4 |>.2

end TimePetri.Priority
