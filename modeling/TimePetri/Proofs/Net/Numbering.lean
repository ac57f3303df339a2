import TimePetri.Proofs.Net.Row
import TimePetri.Proofs.Priority.Descent

namespace TimePetri

theorem number_found (names : Array String) (name : String) (number : Nat)
    (found : names.idxOf? name = some number) : names[number]? = some name := by
  cases names with
  | mk names =>
    rw [List.idxOf?_toArray] at found
    obtain ⟨inside,same,_⟩ := List.idxOf?_eq_some_iff.mp found
    simp [List.getElem?_eq_getElem inside,same]

theorem stands_once {names : Array String} {name : String} {number other : Nat} (distinct : names.toList.Nodup)
    (stands : names[number]? = some name) (same : names[other]? = some name) : number = other := by
  have inside := (Array.getElem?_eq_some_iff.mp stands).1
  rw [← Array.getElem?_toList] at stands same
  exact (List.getElem?_inj (by simpa using inside) distinct).mp (stands.trans same.symm)

theorem number_exact (names : Array String) (distinct : names.toList.Nodup) (name : String) (number : Nat) :
    names.idxOf? name = some number ↔ names[number]? = some name := by
  refine ⟨number_found names name number,fun stands => ?_⟩
  cases found : names.idxOf? name with
  | none => exact absurd (Array.mem_of_getElem? stands) (Array.idxOf?_eq_none_iff.mp found)
  | some other =>
    rw [stands_once distinct stands (number_found names name other found)]

theorem number_pushed (names : Array String) (distinct : names.toList.Nodup) (name : String) (fresh : name ∉ names) :
    (names.push name).toList.Nodup := by
  rw [Array.toList_push]
  refine List.nodup_append.mpr ⟨distinct,List.nodup_singleton _,?_⟩
  rintro a inNames b here rfl
  exact fresh (Array.mem_toList_iff.mp (List.mem_singleton.mp here ▸ inNames))

theorem default_found {index : Nat} (rows : Array α) (other : α) (inside : index < rows.size) :
    rows[index]? = some (rows[index]?.getD other) := by
  rw [Array.getElem?_eq_getElem inside,Option.getD_some]

theorem default_member {index : Nat} (rows : Array α) (other : α) (inside : index < rows.size) :
    rows[index]?.getD other ∈ rows := Array.mem_of_getElem? (default_found rows other inside)

theorem push_default (rows : Array α) (other : α) (t : Nat) :
    (rows.push other)[t]?.getD other = rows[t]?.getD other := by
  rw [Array.getElem?_push]
  split
  · next last => subst last; simp
  · rfl

namespace Net

variable {net : Net} {name : String} {p t : Nat}

theorem ensurePlace_cases (net : Net) (name : String) :
    (∃ p, net.places.idxOf? name = some p ∧ net.ensurePlace name = (p,net)) ∨
      name ∉ net.places ∧ net.ensurePlace name = (net.places.size,net.addPlace name) := by
  unfold ensurePlace placeIndex?
  cases found : net.places.idxOf? name with
  | some p => exact .inl ⟨p,rfl,rfl⟩
  | none => exact .inr ⟨Array.idxOf?_eq_none_iff.mp found,rfl⟩

theorem ensureTransition_cases (net : Net) (name : String) :
    (∃ t, net.transitions.idxOf? name = some t ∧ net.ensureTransition name = (t,net)) ∨
      name ∉ net.transitions ∧ net.ensureTransition name = (net.transitions.size,net.addTransition name) := by
  unfold ensureTransition transitionIndex?
  cases found : net.transitions.idxOf? name with
  | some t => exact .inl ⟨t,rfl,rfl⟩
  | none => exact .inr ⟨Array.idxOf?_eq_none_iff.mp found,rfl⟩

theorem ensurePlace_number (net : Net) (name : String) :
    (net.ensurePlace name).2.places[(net.ensurePlace name).1]? = some name := by
  rcases ensurePlace_cases net name with ⟨q,found,known⟩ | ⟨_,added⟩
  · rw [known]
    exact number_found _ _ _ found
  · rw [added]
    simp [addPlace]

theorem ensureTransition_number (net : Net) (name : String) :
    (net.ensureTransition name).2.transitions[(net.ensureTransition name).1]? = some name := by
  rcases ensureTransition_cases net name with ⟨q,found,known⟩ | ⟨_,added⟩
  · rw [known]
    exact number_found _ _ _ found
  · rw [added]
    simp [addTransition]

theorem ensurePlace_inside (net : Net) (name : String) :
    (net.ensurePlace name).1 < (net.ensurePlace name).2.places.size :=
  (Array.getElem?_eq_some_iff.mp (ensurePlace_number net name)).1

theorem ensureTransition_inside (net : Net) (name : String) :
    (net.ensureTransition name).1 < (net.ensureTransition name).2.transitions.size :=
  (Array.getElem?_eq_some_iff.mp (ensureTransition_number net name)).1

theorem ensureTransition_places (net : Net) (name : String) : (net.ensureTransition name).2.places = net.places := by
  rcases ensureTransition_cases net name with ⟨q,_,known⟩ | ⟨_,added⟩
  · rw [known]
  · rw [added]
    rfl

theorem ensurePlace_known (distinct : net.places.toList.Nodup) (known : net.places[p]? = some name) :
    net.ensurePlace name = (p,net) := by
  unfold ensurePlace placeIndex?
  rw [(number_exact _ distinct _ _).mpr known]

theorem ensureTransition_known (distinct : net.transitions.toList.Nodup) (known : net.transitions[t]? = some name) :
    net.ensureTransition name = (t,net) := by
  unfold ensureTransition transitionIndex?
  rw [(number_exact _ distinct _ _).mpr known]

theorem ensurePlace_fresh (fresh : name ∉ net.places) :
    net.ensurePlace name = (net.places.size,net.addPlace name) := by
  unfold ensurePlace placeIndex?
  rw [Array.idxOf?_eq_none_iff.mpr fresh]

theorem ensureTransition_fresh (fresh : name ∉ net.transitions) :
    net.ensureTransition name = (net.transitions.size,net.addTransition name) := by
  unfold ensureTransition transitionIndex?
  rw [Array.idxOf?_eq_none_iff.mpr fresh]

theorem addTransition_row (net : Net) (name : String) (t : Nat) : (net.addTransition name).row t = net.row t := by
  simp [row,addTransition,push_default]

theorem addTransition_lower (net : Net) (name : String) (t : Nat) :
    Priority.lowerOf (net.addTransition name).prio t = Priority.lowerOf net.prio t := push_default _ _ _

theorem setRow_row (tabled : net.Tabled) (inside : t < net.transitions.size) (row : Row) (u : Nat) :
    (net.setRow t row).row u = if u = t then row else net.row u := by
  have inGuard : t < net.guard.size := tabled.guard ▸ inside
  have inCap : t < net.cap.size := tabled.cap ▸ inside
  have inPre : t < net.pre.size := tabled.pre ▸ inside
  have inDelta : t < net.delta.size := tabled.delta ▸ inside
  by_cases here : u = t
  · subst here
    simp [Net.row,setRow,inGuard,inCap,inPre,inDelta]
  · simp [Net.row,setRow,here,Ne.symm here]

theorem addPlace_tabled (tabled : net.Tabled) (name : String) : (net.addPlace name).Tabled :=
  ⟨tabled.transitionLabels,tabled.time,tabled.guard,tabled.cap,tabled.pre,tabled.delta,tabled.prio⟩

theorem addTransition_tabled (tabled : net.Tabled) (name : String) : (net.addTransition name).Tabled := by
  constructor
  case transitionLabels => simp [addTransition,tabled.transitionLabels]
  case time => simp [addTransition,tabled.time]
  case guard => simp [addTransition,tabled.guard]
  case cap => simp [addTransition,tabled.cap]
  case pre => simp [addTransition,tabled.pre]
  case delta => simp [addTransition,tabled.delta]
  case prio => simp [addTransition,tabled.prio]

theorem setRow_tabled (tabled : net.Tabled) (t : Nat) (row : Row) : (net.setRow t row).Tabled := by
  constructor
  case transitionLabels => exact tabled.transitionLabels
  case time => exact tabled.time
  case guard => simp [setRow,tabled.guard]
  case cap => simp [setRow,tabled.cap]
  case pre => simp [setRow,tabled.pre]
  case delta => simp [setRow,tabled.delta]
  case prio => exact tabled.prio

end Net

end TimePetri
