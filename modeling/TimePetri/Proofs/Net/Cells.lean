import TimePetri.Proofs.Net.Sound

namespace TimePetri

open Script

structure Cell where
  guard : Int
  cap : Int
  pre : Int
  delta : Int
  deriving DecidableEq

namespace Cell

def empty : Cell := ⟨0,0,0,0⟩

def connect (cell : Cell) (use : Use) (weight : Int) : Cell :=
  match use with
  | .consume => { cell with guard := cell.guard + weight, pre := cell.pre - weight, delta := cell.delta - weight }
  | .produce => { cell with delta := cell.delta + weight }
  | .test => { cell with guard := max cell.guard weight }
  | .inhibit =>
    { cell with cap := if weight = 0 then cell.cap else if cell.cap = 0 then weight else min cell.cap weight }

end Cell

namespace Row

variable {row next : Row} {places place : Nat} {use : Use} {weight : Int64}

def cell (row : Row) (place : Nat) : Cell :=
  ⟨row.guard.count place,row.cap.count place,row.pre.count place,row.delta.count place⟩

theorem connect_cell (sound : Sound places row) (nonneg : 0 ≤ weight.toInt)
    (connected : row.connect place use weight = .ok next) (q : Nat) :
    next.cell q = if q = place then (row.cell q).connect use weight.toInt else row.cell q := by
  cases use with
  | consume =>
    obtain ⟨taken,delta,pre,guard,negated,changed,preChanged,guardChanged,rfl⟩ := consume_parts connected
    have amount := (negWord_ok _ _).mp negated
    by_cases here : q = place <;>
      simp [cell,Cell.connect,Marking.addAt_count changed,Marking.addAt_count preChanged,Marking.addAt_count guardChanged,
        amount,here,Int.sub_eq_add_neg]
  | produce =>
    obtain ⟨delta,changed,rfl⟩ := produce_parts connected
    by_cases here : q = place <;> simp [cell,Cell.connect,Marking.addAt_count changed,here]
  | test =>
    cases connected
    have raised := Marking.raise_count row.guard place weight q nonneg (sound.guard place)
    by_cases here : q = place
    · subst here; simp [cell,Cell.connect,raised]
    · simp [cell,raised,here]
  | inhibit =>
    cases connected
    have lowered := Marking.lower_count row.cap place weight q
    by_cases here : q = place
    · subst here
      by_cases zero : weight.toInt = 0
      · simp [cell,Cell.connect,lowered,zero]
      · by_cases absent : row.cap.count q = 0 <;> simp [cell,Cell.connect,lowered,zero,absent]
    · simp [cell,lowered,here]

theorem cell_outside (sound : Sound places row) (outside : places ≤ place) : row.cell place = .empty := by
  have clear : ∀ m : Marking, m.Within places → m.count place = 0 := by
    intro m within
    by_cases absent : m.count place = 0
    · exact absent
    · have inside := within place absent
      omega
  simp [cell,Cell.empty,clear _ sound.guardWithin,clear _ sound.capWithin,clear _ sound.preWithin,clear _ sound.deltaWithin]

end Row

theorem number_push (names : Array String) (name other : String) :
    (names.push name).idxOf? other = (names.idxOf? other).or (if name = other then some names.size else none) := by
  cases names with
  | mk names =>
    rw [List.push_toArray,List.idxOf?_toArray,List.idxOf?_toArray]
    unfold List.idxOf?
    rw [List.findIdx?_append]
    by_cases same : name = other <;> simp [same]

theorem number_same {names : Array String} {number : Nat} {name : String} (distinct : names.toList.Nodup)
    (known : names[number]? = some name) (other : String) : names.idxOf? other = some number ↔ name = other := by
  rw [number_exact names distinct,known,Option.some.injEq]

namespace Net

-- What a net holds for two names, none where a name is not known.
def cell (net : Net) (place transition : String) : Cell :=
  match net.transitionIndex? transition, net.placeIndex? place with
  | some t, some p => (net.row t).cell p
  | _, _ => .empty

def held (net : Net) (place : String) : Int := (net.placeIndex? place).elim 0 net.initial.count

variable {net next : Net} {name place transition : String} {p t : Nat} {weight count : Int64} {use : Use}

theorem cell_known (sound : net.Sound) (transitionKnown : net.transitions[t]? = some transition)
    (placeKnown : net.places[p]? = some place) : net.cell place transition = (net.row t).cell p := by
  unfold cell transitionIndex? placeIndex?
  rw [(number_exact _ sound.transitionNames _ _).mpr transitionKnown,(number_exact _ sound.placeNames _ _).mpr placeKnown]

theorem held_known (sound : net.Sound) (placeKnown : net.places[p]? = some place) :
    net.held place = net.initial.count p := by
  unfold held placeIndex?
  rw [(number_exact _ sound.placeNames _ _).mpr placeKnown]
  rfl

theorem apply_arc (strict : Bool) (net : Net) (place transition : String) (use : Use) (weight : Int64) (token : Token) :
    net.apply strict (.arc place transition use weight token) =
      (((net.ensurePlace place).2.ensureTransition transition).2.connect
        ((net.ensurePlace place).2.ensureTransition transition).1 (net.ensurePlace place).1 use weight).mapError
          (overflowAt token) := rfl

theorem addPlace_cell (sound : net.Sound) (name place transition : String) :
    (net.addPlace name).cell place transition = net.cell place transition := by
  unfold cell
  change (match net.transitionIndex? transition, (net.places.push name).idxOf? place with
    | some t, some p => (net.row t).cell p
    | _, _ => .empty) = _
  rw [number_push,placeIndex?]
  cases net.transitionIndex? transition with
  | none => rfl
  | some t =>
    cases net.places.idxOf? place with
    | some p => rfl
    | none =>
      by_cases same : name = place
      · simp [same,Row.cell_outside (sound.rows t) (Nat.le_refl _)]
      · simp [same]

theorem addTransition_cell (sound : net.Sound) (name place transition : String) :
    (net.addTransition name).cell place transition = net.cell place transition := by
  unfold cell
  simp only [addTransition_row]
  change (match (net.transitions.push name).idxOf? transition, net.placeIndex? place with
    | some t, some p => (net.row t).cell p
    | _, _ => .empty) = _
  rw [number_push,transitionIndex?]
  cases net.transitions.idxOf? transition with
  | some t => rfl
  | none =>
    by_cases same : name = transition
    · cases net.placeIndex? place with
      | none => simp [same]
      | some p => simp [same,row_outside sound.tabled (Nat.lt_irrefl _),Row.cell,Row.empty,Cell.empty]
    · simp [same]

theorem ensurePlace_cell (sound : net.Sound) (name place transition : String) :
    (net.ensurePlace name).2.cell place transition = net.cell place transition := by
  rcases ensurePlace_cases net name with ⟨q,_,known⟩ | ⟨_,added⟩
  · rw [known]
  · rw [added]
    exact addPlace_cell sound name place transition

theorem ensureTransition_cell (sound : net.Sound) (name place transition : String) :
    (net.ensureTransition name).2.cell place transition = net.cell place transition := by
  rcases ensureTransition_cases net name with ⟨q,_,known⟩ | ⟨_,added⟩
  · rw [known]
  · rw [added]
    exact addTransition_cell sound name place transition

theorem ensurePlace_held (sound : net.Sound) (name place : String) :
    (net.ensurePlace name).2.held place = net.held place := by
  rcases ensurePlace_cases net name with ⟨q,_,known⟩ | ⟨_,added⟩
  · rw [known]
  · rw [added]
    change ((net.places.push name).idxOf? place).elim 0 net.initial.count = _
    rw [number_push,held,placeIndex?]
    cases net.places.idxOf? place with
    | some p => rfl
    | none =>
      by_cases same : name = place
      · have clear : net.initial.count net.places.size = 0 := by
          by_cases absent : net.initial.count net.places.size = 0
          · exact absent
          · have inside := sound.initialWithin _ absent
            omega
        simp [same,clear]
      · simp [same]

theorem ensureTransition_held (net : Net) (name place : String) :
    (net.ensureTransition name).2.held place = net.held place := by
  rcases ensureTransition_cases net name with ⟨q,_,known⟩ | ⟨_,added⟩
  · rw [known]
  · rw [added]
    rfl

theorem connect_cell (sound : net.Sound) (transitionKnown : net.transitions[t]? = some transition)
    (placeKnown : net.places[p]? = some place) (nonneg : 0 ≤ weight.toInt)
    (connected : net.connect t p use weight = .ok next) (otherPlace otherTransition : String) :
    next.cell otherPlace otherTransition =
      if place = otherPlace ∧ transition = otherTransition then
        (net.cell otherPlace otherTransition).connect use weight.toInt
      else net.cell otherPlace otherTransition := by
  have inside : t < net.transitions.size := (Array.getElem?_eq_some_iff.mp transitionKnown).1
  obtain ⟨row,result,rfl⟩ := connect_parts sound inside connected
  have cells := Row.connect_cell (sound.rows t) nonneg result
  have here : ∀ u q, ((net.setRow t row).row u).cell q =
      if u = t ∧ q = p then ((net.row u).cell q).connect use weight.toInt else (net.row u).cell q := by
    intro u q
    rw [setRow_row sound.tabled inside]
    by_cases same : u = t
    · subst same; simp [cells]
    · simp [same]
  have transitionNumber := number_same sound.transitionNames transitionKnown otherTransition
  have placeNumber := number_same sound.placeNames placeKnown otherPlace
  unfold cell
  change (match net.transitionIndex? otherTransition, net.placeIndex? otherPlace with
    | some u, some q => ((net.setRow t row).row u).cell q
    | _, _ => .empty) = _
  unfold transitionIndex? placeIndex?
  cases foundTransition : net.transitions.idxOf? otherTransition with
  | none => simp [mt transitionNumber.mpr,foundTransition]
  | some u =>
    cases foundPlace : net.places.idxOf? otherPlace with
    | none => simp [mt placeNumber.mpr,foundPlace]
    | some q =>
      rw [foundTransition,Option.some.injEq] at transitionNumber
      rw [foundPlace,Option.some.injEq] at placeNumber
      simp only [here,transitionNumber,placeNumber,and_comm]

end Net

end TimePetri
