import TimePetri.Proofs.Marking.Search
import TimePetri.Proofs.Marking.Sum

namespace TimePetri

open AtomTable (Around)

variable {m other : Marking} {place : Nat} {change value mult : Int64} {front back : List Atom}

theorem entry_some (place : Nat) (present : mult ≠ 0) : entry place mult = [⟨place,mult⟩] := if_neg present

@[simp] theorem entry_none (place : Nat) : entry place 0 = [] := if_pos rfl

namespace Marking

theorem set_around (around : Around place front back) (split : m.atoms = front ++ entry place (m.get place) ++ back)
    (mult : Int64) : (m.set place mult).atoms = front ++ entry place mult ++ back := by
  change assign place mult m.atoms = _
  rw [split]
  exact assign_around around _ mult

theorem insertAt_exact (around : Around place front back)
    (split : m.atoms = front ++ entry place (m.get place) ++ back) (absent : m.get place = 0) (present : mult ≠ 0) :
    m.table.insertAt front.length ⟨place,mult⟩ = .ok (m.set place mult).table := by
  have whole := set_around around split mult
  rw [absent,entry_none,List.append_nil] at split
  rw [entry_some _ present] at whole
  have inside : front.length ≤ m.table.size := by simp [table,split]
  unfold AtomTable.insertAt
  rw [dif_pos inside]
  refine congrArg Except.ok (Array.toList_inj.mp ?_)
  rw [Array.toList_insertIdx]
  change m.atoms.insertIdx _ _ = (m.set place mult).atoms
  rw [split,whole]
  clear split whole inside around
  induction front with
  | nil => rfl
  | cons a rest ih => exact congrArg (a :: ·) ih

theorem taken_found (split : m.atoms = front ++ entry place (m.get place) ++ back) (taken : m.get place ≠ 0) :
    fetch m.table front.length = .ok ⟨place,m.get place⟩ := by
  rw [entry_some _ taken] at split
  refine (fetch_ok _ _ _).mpr ?_
  rw [← Array.getElem?_toList]
  change m.atoms[front.length]? = _
  rw [split]
  simp

theorem removeAt_exact (around : Around place front back)
    (split : m.atoms = front ++ entry place (m.get place) ++ back) (taken : m.get place ≠ 0) :
    m.table.removeAt front.length = .ok (m.set place 0).table := by
  have whole := set_around around split 0
  rw [entry_none,List.append_nil] at whole
  rw [entry_some _ taken] at split
  have inside : front.length < m.table.size := by simp [table,split]
  unfold AtomTable.removeAt
  rw [dif_pos inside]
  refine congrArg Except.ok (Array.toList_inj.mp ?_)
  rw [Array.toList_eraseIdx]
  change m.atoms.eraseIdx _ = (m.set place 0).atoms
  rw [split,whole,List.append_assoc,List.eraseIdx_append_of_length_le (Nat.le_refl _),Nat.sub_self]
  rfl

theorem writeAt_exact (around : Around place front back)
    (split : m.atoms = front ++ entry place (m.get place) ++ back) (taken : m.get place ≠ 0) (present : mult ≠ 0) :
    m.table.writeAt front.length mult = .ok (m.set place mult).table := by
  have whole := set_around around split mult
  rw [AtomTable.writeAt,taken_found split taken,ok_bind]
  rw [entry_some _ present] at whole
  rw [entry_some _ taken] at split
  refine congrArg Except.ok (Array.toList_inj.mp ?_)
  rw [Array.toList_setIfInBounds]
  change m.atoms.set _ _ = (m.set place mult).atoms
  rw [split,whole,List.append_assoc,List.append_assoc,List.set_append_right _ _ (Nat.le_refl _),Nat.sub_self]
  rfl

theorem multAt_exact (m : Marking) (place : Nat) : m.table.multAt place = .ok (m.get place) := by
  obtain ⟨front,back,_,split,found⟩ := locate_exact m place
  rw [AtomTable.multAt,found,ok_bind]
  by_cases absent : m.get place = 0
  · rw [if_pos absent,absent]
    rfl
  · rw [if_neg absent]
    dsimp only
    rw [taken_found split absent]
    rfl

theorem addAtTable_exact (m : Marking) (place : Nat) (change : Int64) :
    m.table.addAt place change = table <$> m.addAt place change := by
  unfold AtomTable.addAt
  by_cases none : change = 0
  · rw [if_pos none,addAt_zero _ _ _ ((word_zero change).mp none)]
    rfl
  · obtain ⟨front,back,around,split,found⟩ := locate_exact m place
    rw [if_neg none,found,ok_bind]
    by_cases absent : m.get place = 0
    · rw [if_pos absent]
      have total : addWords 0 change = .ok change := (checked_ok _ _ _).mpr (by simp)
      rw [addAt,absent,total]
      exact insertAt_exact around split absent none
    · rw [if_neg absent]
      dsimp only
      rw [taken_found split absent,ok_bind,addAt]
      cases addWords (m.get place) change with
      | error fault => rfl
      | ok total =>
        rw [ok_bind,ok_bind]
        split
        · next cancelled =>
          subst cancelled
          exact removeAt_exact around split absent
        · next remains => exact writeAt_exact around split absent remains

theorem addAtChecked_exact (m : Marking) (place : Nat) (change : Int64) :
    m.table.addAtChecked place change = .ok (match m.addAt? place change with
      | .ok next => (next.table,none)
      | .error refusal => (m.table,some refusal)) := by
  obtain ⟨front,back,around,split,found⟩ := locate_exact m place
  rw [AtomTable.addAtChecked,found,ok_bind,addAtTable_exact,addAt?]
  by_cases absent : m.get place = 0
  · have total : addWords 0 change = .ok change := (checked_ok _ _ _).mpr (by simp)
    rw [if_pos absent,addAt,absent,total]
    rfl
  · rw [if_neg absent]
    dsimp only
    rw [taken_found split absent,ok_bind,addAt]
    cases addWords (m.get place) change <;> rfl

-- A pick of two values that are not zero is not zero.
theorem update_exact (pick : Int64 → Int64 → Int64) (one : ∀ a b, pick a b = a ∨ pick a b = b) (m : Marking) (place : Nat)
    (value : Int64) : m.table.update pick place value = .ok (update pick m place value).table := by
  unfold AtomTable.update update
  by_cases none : value = 0
  · rw [if_pos none,if_pos none]
  · obtain ⟨front,back,around,split,found⟩ := locate_exact m place
    rw [if_neg none,if_neg none,found,ok_bind]
    by_cases absent : m.get place = 0
    · rw [if_pos absent,if_pos absent]
      exact insertAt_exact around split absent none
    · rw [if_neg absent,if_neg absent]
      dsimp only
      rw [taken_found split absent,ok_bind]
      refine writeAt_exact around split absent ?_
      rcases one (m.get place) value with left | right
      · rwa [left]
      · rwa [right]

theorem raiseTable_exact (m : Marking) (place : Nat) (value : Int64) :
    m.table.raise place value = .ok (m.raise place value).table := by
  refine update_exact max (fun a b => ?_) m place value
  change (if a ≤ b then b else a) = a ∨ (if a ≤ b then b else a) = b
  split
  · exact .inr rfl
  · exact .inl rfl

theorem lowerTable_exact (m : Marking) (place : Nat) (value : Int64) :
    m.table.lower place value = .ok (m.lower place value).table := by
  refine update_exact min (fun a b => ?_) m place value
  change (if a ≤ b then a else b) = a ∨ (if a ≤ b then a else b) = b
  split
  · exact .inl rfl
  · exact .inr rfl

theorem collect_exact (pairs : List (Nat × Int64)) : AtomTable.collect pairs = table <$> ofPairs pairs := by
  have onwards : ∀ m : Marking, pairs.foldlM (fun t pair => AtomTable.addAt t pair.1 pair.2) m.table =
      table <$> pairs.foldlM (fun m pair => m.addAt pair.1 pair.2) m := by
    induction pairs with
    | nil => exact fun m => rfl
    | cons pair rest ih =>
      intro m
      rw [List.foldlM_cons,List.foldlM_cons,addAtTable_exact]
      cases m.addAt pair.1 pair.2 with
      | error fault => rfl
      | ok next => exact ih next
  exact onwards empty

end Marking

end TimePetri
