import TimePetri.Marking.InPlace
import TimePetri.Proofs.Marking.Counts

namespace TimePetri

variable {table : AtomTable} {place base size index i j : Nat} {a b : Atom} {front back : List Atom}

theorem places_increase (valid : Canonical table.toList) (less : i < j) (first : table[i]? = some a)
    (second : table[j]? = some b) : a.place < b.place := by
  obtain ⟨inside,rfl⟩ := Array.getElem?_eq_some_iff.mp first
  obtain ⟨later,rfl⟩ := Array.getElem?_eq_some_iff.mp second
  exact List.pairwise_iff_getElem.mp valid.1 i j inside later less

namespace AtomTable

-- Nothing behind the index is as low as the place, and the atom at the index is not above
-- it unless it is the first.
structure Cut (table : AtomTable) (place index : Nat) : Prop where
  inside : index < table.size
  below : ∀ a, table[index]? = some a → index = 0 ∨ a.place ≤ place
  above : ∀ i a, index < i → table[i]? = some a → place < a.place

theorem narrow_cut (valid : Canonical table.toList) (place : Nat) (more : 0 < size) (inside : base + size ≤ table.size)
    (below : ∀ a, table[base]? = some a → base = 0 ∨ a.place ≤ place)
    (above : ∀ i a, base + size ≤ i → table[i]? = some a → place < a.place) :
    ∃ index, table.narrow place base size = .ok index ∧ Cut table place index := by
  induction size using Nat.strongRecOn generalizing base with
  | ind size ih =>
    unfold narrow
    by_cases one : size ≤ 1
    · rw [if_pos one]
      exact ⟨base,rfl,by omega,below,fun i a behind => above i a (by omega)⟩
    · have middleInside : base + size / 2 < table.size := by omega
      have middleFound := Array.getElem?_eq_getElem middleInside
      rw [if_neg one,fetch_inside _ _ middleInside,ok_bind]
      by_cases less : place < table[base + size / 2].place
      · rw [if_pos less]
        refine ih (size - size / 2) (by omega) (by omega) (by omega) below fun i a behind found => ?_
        -- The half that is dropped may begin behind the middle by one.
        rcases Nat.lt_or_ge (base + size / 2) i with later | early
        · exact Nat.lt_trans less (places_increase valid later middleFound found)
        · obtain rfl : i = base + size / 2 := by omega
          cases middleFound.symm.trans found
          exact less
      · rw [if_neg less]
        refine ih (size - size / 2) (by omega) (by omega) (by omega) (fun a found => .inr ?_) fun i a behind =>
          above i a (by omega)
        cases middleFound.symm.trans found
        omega

structure Around (place : Nat) (front back : List Atom) : Prop where
  front : ∀ a ∈ front, a.place < place
  back : ∀ a ∈ back, place < a.place

theorem cut_split (valid : Canonical table.toList) (cut : Cut table place index) : ∃ front here back,
    table[index]? = some here ∧ front.length = index ∧ table.toList = front ++ here :: back ∧
      (∀ a ∈ front, a.place < here.place) ∧ ∀ a ∈ back, place < a.place := by
  have inList : index < table.toList.length := cut.inside
  have stands := Array.getElem?_eq_getElem cut.inside
  refine ⟨table.toList.take index,_,table.toList.drop (index + 1),stands,?_,?_,fun a member => ?_,fun a member => ?_⟩
  · rw [List.length_take]
    omega
  · rw [← Array.getElem_toList,← List.drop_eq_getElem_cons inList,List.take_append_drop]
  · obtain ⟨i,inTake,same⟩ := List.mem_take_iff_getElem.mp member
    refine places_increase valid (i := i) (j := index) (by omega) ?_ stands
    rw [← Array.getElem?_toList,List.getElem?_eq_getElem (by omega),same]
  · obtain ⟨i,inDrop,same⟩ := List.mem_drop_iff_getElem.mp member
    refine cut.above (index + 1 + i) a (by omega) ?_
    rw [← Array.getElem?_toList,List.getElem?_eq_getElem (by omega),same]

theorem locate_cases (valid : Canonical table.toList) (place : Nat) :
    ∃ front back, Around place front back ∧
      ((∃ mult, table.toList = front ++ ⟨place,mult⟩ :: back ∧ table.locate place = .ok (.taken front.length)) ∨
        table.toList = front ++ back ∧ table.locate place = .ok (.free front.length)) := by
  unfold locate
  by_cases none : table.isEmpty
  · rw [if_pos none]
    obtain rfl := Array.isEmpty_iff.mp none
    exact ⟨[],[],⟨nofun,nofun⟩,.inr ⟨rfl,rfl⟩⟩
  · have more : 0 < table.size := by
      rw [Array.isEmpty_iff,← Array.size_eq_zero_iff] at none
      omega
    obtain ⟨index,found,cut⟩ := narrow_cut valid place more (show 0 + table.size ≤ table.size by omega) (fun _ _ => .inl rfl)
      fun i a behind stands => by
        have := (Array.getElem?_eq_some_iff.mp stands).1
        omega
    obtain ⟨front,here,back,stands,rfl,split,frontBelow,backAbove⟩ := cut_split valid cut
    rw [if_neg none,found,ok_bind,(fetch_ok _ _ _).mpr stands,ok_bind]
    by_cases same : here.place = place
    · rw [if_pos same]
      subst same
      exact ⟨front,back,⟨frontBelow,backAbove⟩,.inl ⟨here.mult,split,rfl⟩⟩
    · rw [if_neg same]
      by_cases before : here.place < place
      · rw [if_pos before]
        refine ⟨front ++ [here],back,⟨fun a member => ?_,backAbove⟩,.inr ⟨by rw [split,List.append_cons],?_⟩⟩
        · rcases List.mem_append.mp member with inFront | last
          · exact Nat.lt_trans (frontBelow a inFront) before
          · cases List.mem_singleton.mp last
            exact before
        · rw [List.length_append]
          rfl
      · -- An atom above the place is the first one of the table.
        rw [if_neg before]
        obtain rfl := List.length_eq_zero_iff.mp ((cut.below _ stands).resolve_right (by omega))
        refine ⟨[],here :: back,⟨nofun,fun a member => ?_⟩,.inr ⟨split,rfl⟩⟩
        rcases List.mem_cons.mp member with rfl | later
        · exact Nat.lt_of_le_of_ne (Nat.le_of_not_lt before) (Ne.symm same)
        · exact backAbove a later

end AtomTable

open AtomTable (Around)

theorem lookup_around (around : Around place front back) (mult : Int64) :
    lookup place (front ++ entry place mult ++ back) = mult := by
  induction front with
  | nil => rw [List.nil_append,lookup_entry _ _ _ _ around.back,if_pos rfl]
  | cons a rest ih =>
    have different : a.place ≠ place := Nat.ne_of_lt (around.front a (by simp))
    rw [List.cons_append,List.cons_append,lookup,if_neg different]
    exact ih ⟨fun b member => around.front b (List.mem_cons_of_mem _ member),around.back⟩

theorem assign_around (around : Around place front back) (old mult : Int64) :
    assign place mult (front ++ entry place old ++ back) = front ++ entry place mult ++ back := by
  induction front with
  | nil =>
    rw [List.nil_append,List.nil_append]
    by_cases absent : old = 0
    · subst absent
      cases back with
      | nil => exact (List.append_nil _).symm
      | cons b rest => exact if_pos (around.back b (by simp))
    · rw [entry,if_neg absent]
      exact (if_neg (Nat.lt_irrefl _)).trans (if_pos rfl)
  | cons a rest ih =>
    have before := around.front a (by simp)
    have further := ih ⟨fun b member => around.front b (List.mem_cons_of_mem _ member),around.back⟩
    rw [List.cons_append,List.cons_append,assign,if_neg (by omega),if_neg (by omega),further]
    rfl

namespace Marking

theorem table_exact (m other : Marking) : m.table = other.table ↔ m = other := by
  refine ⟨fun same => ?_,congrArg table⟩
  have atoms : m.atoms = other.atoms := congrArg Array.toList same
  exact ext_get m other fun p => congrArg (lookup p) atoms

theorem locate_exact (m : Marking) (place : Nat) : ∃ front back, Around place front back ∧
    m.atoms = front ++ entry place (m.get place) ++ back ∧
    m.table.locate place = .ok (if m.get place = 0 then .free front.length else .taken front.length) := by
  obtain ⟨front,back,around,⟨mult,split,found⟩ | ⟨split,found⟩⟩ := AtomTable.locate_cases (show Canonical m.table.toList from m.canonical) place
  · have present : mult ≠ 0 := m.canonical.2 ⟨place,mult⟩ (by rw [show m.atoms = _ from split]; simp)
    have whole : m.atoms = front ++ entry place mult ++ back := by
      rw [entry,if_neg present,List.append_assoc]
      exact split
    have here : m.get place = mult := by rw [get,whole,lookup_around around]
    refine ⟨front,back,around,by rw [here,whole],?_⟩
    rw [here,if_neg present,found]
  · have whole : m.atoms = front ++ entry place 0 ++ back := by
      rw [entry,if_pos rfl,List.append_nil]
      exact split
    have here : m.get place = 0 := by rw [get,whole,lookup_around around]
    refine ⟨front,back,around,by rw [here,whole],?_⟩
    rw [here,if_pos rfl,found]

end Marking

end TimePetri
