import TimePetri.Proofs.Net.Numbering

namespace TimePetri

open Priority

namespace Priority

variable {relation : Relation} {upper lower : List Nat} {t u : Nat}

theorem modify_lower (relation : Relation) (t : Nat) (change : List Nat → List Nat)
    (inside : t < relation.size) (u : Nat) :
    lowerOf (relation.modify t change) u = if u = t then change (lowerOf relation t) else lowerOf relation u := by
  unfold lowerOf
  rw [Array.getElem?_modify]
  by_cases here : u = t
  · subst here
    simp [Array.getElem?_eq_getElem inside]
  · simp [here,Ne.symm here]

theorem modifyAll_below (relation : Relation) (upper lower : List Nat) (inTable : ∀ t ∈ upper, t < relation.size)
    (t u : Nat) :
    Below (upper.foldl (fun prio t => prio.modify t (union · lower)) relation) t u ↔
      Below relation t u ∨ t ∈ upper ∧ u ∈ lower := by
  induction upper generalizing relation with
  | nil => simp
  | cons first rest ih =>
    rw [List.foldl_cons,ih]
    · have changed := modify_lower relation first (union · lower) (inTable first (by simp)) t
      unfold Below at *
      rw [changed]
      by_cases here : t = first
      · subst here
        simp only [if_true,union_member,List.mem_cons,true_or,true_and]
        tauto
      · simp [here]
    · intro other member
      rw [Array.size_modify]
      exact inTable other (List.mem_cons_of_mem _ member)

theorem modifyAll_size (relation : Relation) (upper lower : List Nat) :
    (upper.foldl (fun prio t => prio.modify t (union · lower)) relation).size = relation.size := by
  induction upper generalizing relation with
  | nil => rfl
  | cons first rest ih => rw [List.foldl_cons,ih,Array.size_modify]

theorem modify_ordered (ordered : Ordered relation) (increasing : Increasing lower) (t : Nat) :
    Ordered (relation.modify t (union · lower)) := by
  refine (ordered_exact _).mpr fun u => ?_
  by_cases inside : t < relation.size
  · rw [modify_lower _ _ _ inside]
    split
    · exact union_increasing _ _ ((ordered_exact _).mp ordered t) increasing
    · exact (ordered_exact _).mp ordered u
  · have same : relation.modify t (union · lower) = relation := by
      refine Array.ext (by simp) fun i before after => ?_
      rw [Array.getElem_modify,if_neg (by simp at before; omega)]
    rw [same]
    exact (ordered_exact _).mp ordered u

theorem modifyAll_ordered (ordered : Ordered relation) (increasing : Increasing lower) (upper : List Nat) :
    Ordered (upper.foldl (fun prio t => prio.modify t (union · lower)) relation) := by
  induction upper generalizing relation with
  | nil => exact ordered
  | cons first rest ih => exact ih (modify_ordered ordered increasing first)

end Priority

namespace Net

variable {net : Net}

def addNumber (net : Net) (numbers : List Nat) (name : String) : List Nat :=
  (net.transitionIndex? name).elim numbers (Priority.insert numbers)

theorem addNumber_increasing (net : Net) (numbers : List Nat) (name : String) (increasing : Increasing numbers) :
    Increasing (net.addNumber numbers name) := by
  unfold addNumber
  cases net.transitionIndex? name with
  | none => exact increasing
  | some number => exact insert_increasing _ _ increasing

theorem addNumber_member (net : Net) (numbers : List Nat) (name : String) (t : Nat) :
    t ∈ net.addNumber numbers name ↔ t ∈ numbers ∨ net.transitionIndex? name = some t := by
  unfold addNumber
  cases net.transitionIndex? name with
  | none => simp
  | some number => simp [eq_comm]

theorem addNumbers_increasing (net : Net) (names : List String) (numbers : List Nat)
    (increasing : Increasing numbers) :
    Increasing (names.foldl net.addNumber numbers) := by
  induction names generalizing numbers with
  | nil => exact increasing
  | cons name rest ih => exact ih _ (addNumber_increasing _ _ _ increasing)

theorem addNumbers_member (net : Net) (names : List String) (numbers : List Nat) (t : Nat) :
    t ∈ names.foldl net.addNumber numbers ↔ t ∈ numbers ∨ ∃ name ∈ names, net.transitionIndex? name = some t := by
  induction names generalizing numbers with
  | nil => simp
  | cons name rest ih =>
    rw [List.foldl_cons,ih,addNumber_member]
    simp only [List.mem_cons,exists_eq_or_imp,or_assoc]

theorem numberAll_increasing (net : Net) (names : List String) : Increasing (net.numberAll names) :=
  addNumbers_increasing net names [] increasing_nil

theorem numberAll_member (net : Net) (names : List String) (t : Nat) :
    t ∈ net.numberAll names ↔ ∃ name ∈ names, net.transitionIndex? name = some t :=
  (addNumbers_member net names [] t).trans (by simp)

theorem numberAll_inside (net : Net) (names : List String) (t : Nat) (member : t ∈ net.numberAll names) :
    t < net.transitions.size := by
  obtain ⟨name,_,found⟩ := (numberAll_member _ _ _).mp member
  exact (Array.getElem?_eq_some_iff.mp (number_found _ _ _ found)).1

theorem numberAll_exact (distinct : net.transitions.toList.Nodup) (numbers : List Nat) (names : List String)
    (increasing : Increasing numbers) (named : numbers.map (net.transitions[·]?) = names.map some) :
    net.numberAll names = numbers := by
  refine increasing_exact _ _ (numberAll_increasing _ _) increasing fun t => ?_
  rw [numberAll_member]
  constructor
  · rintro ⟨name,member,found⟩
    have among : some name ∈ numbers.map (net.transitions[·]?) := by rw [named]; exact List.mem_map_of_mem member
    obtain ⟨u,inNumbers,stands⟩ := List.mem_map.mp among
    rw [transitionIndex?,(number_exact _ distinct _ _).mpr stands] at found
    cases found
    exact inNumbers
  · intro member
    have among : net.transitions[t]? ∈ names.map some := by
      rw [← named]
      exact List.mem_map_of_mem (f := (net.transitions[·]?)) member
    obtain ⟨name,inNames,stands⟩ := List.mem_map.mp among
    exact ⟨name,inNames,(number_exact _ distinct _ _).mpr stands.symm⟩

end Net

end TimePetri
