import TimePetri.Proofs.Net.Priorities
import TimePetri.Proofs.Script.Admissible

namespace TimePetri

open Script Priority

namespace Net

-- What reading a text keeps: every table has its rows, every row its places, and no
-- name stands twice.
structure Sound (net : Net) : Prop where
  placeLabels : net.placeLabels.size = net.places.size
  placeNames : net.places.toList.Nodup
  tabled : net.Tabled
  transitionNames : net.transitions.toList.Nodup
  initialWithin : net.initial.Within net.places.size
  initial : ∀ p, 0 ≤ net.initial.count p
  rows : ∀ t, (net.row t).Sound net.places.size
  times : ∀ interval ∈ net.time, interval.Stored
  ordered : Ordered net.prio
  inTable : InTable net.prio

-- A label left out is empty, and so is the name of a net without one.
structure Spelled (net : Net) : Prop where
  name : net.name = "" ∨ IsName net.name.toList
  places : ∀ name ∈ net.places, IsName name.toList
  transitions : ∀ name ∈ net.transitions, IsName name.toList
  placeLabels : ∀ label ∈ net.placeLabels, label = "" ∨ IsLabel label.toList
  transitionLabels : ∀ label ∈ net.transitionLabels, label = "" ∨ IsLabel label.toList

variable {net next : Net} {name label : String} {p t place : Nat} {weight count : Int64} {use : Use}

theorem empty_sound : Sound empty := by
  constructor
  case placeLabels => rfl
  case placeNames => exact List.nodup_nil
  case tabled => exact ⟨rfl,rfl,rfl,rfl,rfl,rfl,rfl⟩
  case transitionNames => exact List.nodup_nil
  case initialWithin => exact Marking.within_empty _
  case initial => intro p; simp [empty]
  case rows => intro t; exact Row.empty_sound _
  case times => exact nofun
  case ordered => exact nofun
  case inTable => exact nofun

theorem empty_spelled : Spelled empty := ⟨.inl rfl,nofun,nofun,nofun,nofun⟩

theorem addPlace_sound (sound : net.Sound) (fresh : name ∉ net.places) : (net.addPlace name).Sound := by
  have more : net.places.size ≤ (net.places.push name).size := by simp
  constructor
  case placeLabels => simp [addPlace,sound.placeLabels]
  case placeNames => exact number_pushed _ sound.placeNames name fresh
  case tabled => exact addPlace_tabled sound.tabled name
  case transitionNames => exact sound.transitionNames
  case initialWithin => exact Marking.within_more more sound.initialWithin
  case initial => exact sound.initial
  case rows => exact fun t => (sound.rows t).more more
  case times => exact sound.times
  case ordered => exact sound.ordered
  case inTable => exact sound.inTable

theorem addTransition_sound (sound : net.Sound) (fresh : name ∉ net.transitions) :
    (net.addTransition name).Sound := by
  constructor
  case placeLabels => exact sound.placeLabels
  case placeNames => exact sound.placeNames
  case tabled => exact addTransition_tabled sound.tabled name
  case transitionNames => exact number_pushed _ sound.transitionNames name fresh
  case initialWithin => exact sound.initialWithin
  case initial => exact sound.initial
  case rows => intro t; rw [addTransition_row]; exact sound.rows t
  case times =>
    intro interval member
    rcases Array.mem_push.mp member with old | rfl
    · exact sound.times interval old
    · exact .inl rfl
  case ordered =>
    refine (ordered_exact _).mpr fun t => ?_
    rw [addTransition_lower]
    exact (ordered_exact _).mp sound.ordered t
  case inTable =>
    refine (inTable_exact _).mpr fun t u below => ?_
    unfold Below at below
    rw [addTransition_lower] at below
    have inside := (inTable_exact _).mp sound.inTable t u below
    simp only [addTransition,Array.size_push]
    omega

theorem ensurePlace_sound (sound : net.Sound) (name : String) : (net.ensurePlace name).2.Sound := by
  rcases ensurePlace_cases net name with ⟨q,_,known⟩ | ⟨fresh,added⟩
  · rw [known]
    exact sound
  · rw [added]
    exact addPlace_sound sound fresh

theorem ensureTransition_sound (sound : net.Sound) (name : String) : (net.ensureTransition name).2.Sound := by
  rcases ensureTransition_cases net name with ⟨q,_,known⟩ | ⟨fresh,added⟩
  · rw [known]
    exact sound
  · rw [added]
    exact addTransition_sound sound fresh

theorem row_fetched (sound : net.Sound) (inside : t < net.transitions.size) :
    fetch net.guard t = .ok (net.row t).guard ∧ fetch net.cap t = .ok (net.row t).cap ∧
      fetch net.pre t = .ok (net.row t).pre ∧ fetch net.delta t = .ok (net.row t).delta := by
  have inGuard : t < net.guard.size := sound.tabled.guard ▸ inside
  have inCap : t < net.cap.size := sound.tabled.cap ▸ inside
  have inPre : t < net.pre.size := sound.tabled.pre ▸ inside
  have inDelta : t < net.delta.size := sound.tabled.delta ▸ inside
  simp [fetch_inside,row,inGuard,inCap,inPre,inDelta]

theorem setRow_sound (sound : net.Sound) (inside : t < net.transitions.size) (row : Row)
    (rowSound : row.Sound net.places.size) :
    (net.setRow t row).Sound := by
  refine { sound with tabled := setRow_tabled sound.tabled t row, rows := ?_ }
  intro u
  rw [setRow_row sound.tabled inside]
  split
  · exact rowSound
  · exact sound.rows u

theorem connect_parts (sound : net.Sound) (inside : t < net.transitions.size)
    (connected : net.connect t place use weight = .ok next) :
    ∃ row, (net.row t).connect place use weight = .ok row ∧ next = net.setRow t row := by
  rw [connect_row net t place use weight sound.tabled inside] at connected
  cases result : (net.row t).connect place use weight with
  | error fault => rw [result] at connected; cases connected
  | ok row => rw [result] at connected; cases connected; exact ⟨row,rfl,rfl⟩

theorem connect_sound (sound : net.Sound) (inside : t < net.transitions.size) (known : place < net.places.size)
    (nonneg : 0 ≤ weight.toInt) (connected : net.connect t place use weight = .ok next) : next.Sound := by
  obtain ⟨row,result,rfl⟩ := connect_parts sound inside connected
  exact setRow_sound sound inside row (Row.connect_sound (sound.rows t) known nonneg result)

theorem narrow_parts (interval : Interval) (token : Token) (narrowed : net.narrow t name interval token = .ok next) :
    ∃ current result, net.time[t]? = some current ∧ current.intersection interval = .ok result ∧
      next = { net with time := net.time.setIfInBounds t result.normalize } := by
  obtain ⟨current,fetched,rest⟩ := bind_ok.mp narrowed
  obtain ⟨result,intersected,rest⟩ := bind_ok.mp rest
  cases rest
  exact ⟨current,result,(fetch_ok _ _ _).mp (mapError_ok.mp fetched),mapError_ok.mp intersected,rfl⟩

theorem narrow_sound (sound : net.Sound) (interval : Interval) (token : Token) (declared : interval.Declared)
    (narrowed : net.narrow t name interval token = .ok next) : next.Sound := by
  obtain ⟨current,result,found,intersected,rfl⟩ := narrow_parts interval token narrowed
  refine { sound with tabled := ?_, times := ?_ }
  · exact { sound.tabled with time := by simp [sound.tabled.time] }
  · intro stored member
    rcases Array.mem_or_eq_of_mem_setIfInBounds member with old | rfl
    · exact sound.times stored old
    · have old := sound.times current (Array.mem_of_getElem? found)
      exact Interval.normalize_stored (Interval.intersection_declared old declared intersected)

theorem prioritize_sound (sound : net.Sound) (upper lower : List Nat) (increasing : Increasing lower)
    (inUpper : ∀ t ∈ upper, t < net.transitions.size) (inLower : ∀ u ∈ lower, u < net.transitions.size) :
    (net.prioritize upper lower).Sound := by
  have inTable : ∀ t ∈ upper, t < net.prio.size := fun t member => sound.tabled.prio ▸ inUpper t member
  refine { sound with tabled := ?_, ordered := ?_, inTable := ?_ }
  · exact { sound.tabled with prio := (modifyAll_size _ _ _).trans sound.tabled.prio }
  · exact modifyAll_ordered sound.ordered increasing upper
  · refine (inTable_exact _).mpr fun t u below => ?_
    have size : (net.prioritize upper lower).prio.size = net.prio.size := modifyAll_size _ _ _
    rw [size]
    rcases (modifyAll_below _ _ _ inTable t u).mp below with old | ⟨_,inRow⟩
    · exact (inTable_exact _).mp sound.inTable t u old
    · exact sound.tabled.prio ▸ inLower u inRow

theorem addAt_sound (sound : net.Sound) (known : p < net.places.size) (nonneg : 0 ≤ count.toInt) (initial : Marking)
    (added : net.initial.addAt p count = .ok initial) : Sound { net with initial } := by
  have counts := Marking.addAt_count added
  refine { sound with tabled := { sound.tabled with }, initialWithin := ?_, initial := ?_ }
  · exact Marking.within_change sound.initialWithin known fun q other => by simp [counts,other]
  · intro q
    have old := sound.initial q
    rw [counts]
    split <;> omega

theorem transitionLabel_sound (sound : net.Sound) (t : Nat) (label : String) :
    Sound { net with transitionLabels := net.transitionLabels.setIfInBounds t label } :=
  { sound with tabled := { sound.tabled with transitionLabels := by simp [sound.tabled.transitionLabels] } }

theorem placeLabel_sound (sound : net.Sound) (p : Nat) (label : String) :
    Sound { net with placeLabels := net.placeLabels.setIfInBounds p label } :=
  { sound with tabled := { sound.tabled with }, placeLabels := by simp [sound.placeLabels] }

theorem apply_sound (sound : net.Sound) (strict : Bool) (clause : Clause) (measured : clause.Measured)
    (applied : net.apply strict clause = .ok next) : next.Sound := by
  cases clause with
  | netName name => cases applied; exact { sound with tabled := { sound.tabled with } }
  | transition name => cases applied; exact ensureTransition_sound sound name
  | transitionLabel name label =>
    cases applied
    exact transitionLabel_sound (ensureTransition_sound sound name) _ label
  | interval name interval token =>
    exact narrow_sound (ensureTransition_sound sound name) interval token measured applied
  | place name => cases applied; exact ensurePlace_sound sound name
  | placeLabel name label =>
    cases applied
    exact placeLabel_sound (ensurePlace_sound sound name) _ label
  | marking name count token =>
    obtain ⟨initial,added,same⟩ := bind_ok.mp applied
    cases same
    exact addAt_sound (ensurePlace_sound sound name) (ensurePlace_inside net name) measured initial (mapError_ok.mp added)
  | arc place transition use weight token =>
    have placed := ensurePlace_sound sound place
    have known : (net.ensurePlace place).1 < ((net.ensurePlace place).2.ensureTransition transition).2.places.size := by
      rw [ensureTransition_places]
      exact ensurePlace_inside net place
    exact connect_sound (ensureTransition_sound placed transition) (ensureTransition_inside _ _) known measured
      (mapError_ok.mp applied)
  | mention token =>
    unfold apply at applied
    dsimp only at applied
    split at applied
    · cases applied
    · cases applied; exact ensureTransition_sound sound token.text
  | priority first order second =>
    cases order with
    | above =>
      cases applied
      exact prioritize_sound sound _ _ (numberAll_increasing _ _) (numberAll_inside _ _) (numberAll_inside _ _)
    | below =>
      cases applied
      exact prioritize_sound sound _ _ (numberAll_increasing _ _) (numberAll_inside _ _) (numberAll_inside _ _)
  | note text => cases applied; exact sound

theorem ensurePlace_spelled (spelled : net.Spelled) (isName : IsName name.toList) :
    (net.ensurePlace name).2.Spelled := by
  rcases ensurePlace_cases net name with ⟨q,_,known⟩ | ⟨_,added⟩
  · rw [known]
    exact spelled
  · rw [added]
    refine { spelled with places := ?_, placeLabels := ?_ }
    · intro other member
      rcases Array.mem_push.mp member with old | rfl
      · exact spelled.places other old
      · exact isName
    · intro other member
      rcases Array.mem_push.mp member with old | rfl
      · exact spelled.placeLabels other old
      · exact .inl rfl

theorem ensureTransition_spelled (spelled : net.Spelled) (isName : IsName name.toList) :
    (net.ensureTransition name).2.Spelled := by
  rcases ensureTransition_cases net name with ⟨q,_,known⟩ | ⟨_,added⟩
  · rw [known]
    exact spelled
  · rw [added]
    refine { spelled with transitions := ?_, transitionLabels := ?_ }
    · intro other member
      rcases Array.mem_push.mp member with old | rfl
      · exact spelled.transitions other old
      · exact isName
    · intro other member
      rcases Array.mem_push.mp member with old | rfl
      · exact spelled.transitionLabels other old
      · exact .inl rfl

theorem labels_spelled (labels : Array String) (index : Nat)
    (all : ∀ label ∈ labels, label = "" ∨ IsLabel label.toList)
    (isLabel : IsLabel label.toList) : ∀ other ∈ labels.setIfInBounds index label, other = "" ∨ IsLabel other.toList := by
  intro other member
  rcases Array.mem_or_eq_of_mem_setIfInBounds member with old | rfl
  · exact all other old
  · exact .inr isLabel

theorem spelled_same (spelled : net.Spelled) (name : next.name = net.name) (places : next.places = net.places)
    (transitions : next.transitions = net.transitions) (placeLabels : next.placeLabels = net.placeLabels)
    (transitionLabels : next.transitionLabels = net.transitionLabels) : next.Spelled :=
  ⟨name ▸ spelled.name,places ▸ spelled.places,transitions ▸ spelled.transitions,placeLabels ▸ spelled.placeLabels,
    transitionLabels ▸ spelled.transitionLabels⟩

theorem apply_spelled (sound : net.Sound) (spelled : net.Spelled) (strict : Bool) (clause : Clause)
    (admissible : clause.Admissible) (applied : net.apply strict clause = .ok next) : next.Spelled := by
  cases clause with
  | netName name => cases applied; exact { spelled with name := .inr admissible }
  | transition name => cases applied; exact ensureTransition_spelled spelled admissible
  | transitionLabel name label =>
    have declared := ensureTransition_spelled spelled admissible.1
    cases applied
    exact { declared with transitionLabels := labels_spelled _ _ declared.transitionLabels admissible.2 }
  | interval name interval token =>
    obtain ⟨current,result,_,_,rfl⟩ := narrow_parts interval token applied
    exact spelled_same (ensureTransition_spelled spelled admissible.1) rfl rfl rfl rfl rfl
  | place name => cases applied; exact ensurePlace_spelled spelled admissible
  | placeLabel name label =>
    have declared := ensurePlace_spelled spelled admissible.1
    cases applied
    exact { declared with placeLabels := labels_spelled _ _ declared.placeLabels admissible.2 }
  | marking name count token =>
    obtain ⟨initial,_,same⟩ := bind_ok.mp applied
    cases same
    exact spelled_same (ensurePlace_spelled spelled admissible.1) rfl rfl rfl rfl rfl
  | arc place transition use weight token =>
    have declared := ensureTransition_spelled (ensurePlace_spelled spelled admissible.1) admissible.2.1
    have placed := ensureTransition_sound (ensurePlace_sound sound place) transition
    obtain ⟨row,_,rfl⟩ := connect_parts placed (ensureTransition_inside _ _) (mapError_ok.mp applied)
    exact spelled_same declared rfl rfl rfl rfl rfl
  | mention token =>
    unfold apply at applied
    dsimp only at applied
    split at applied
    · cases applied
    · cases applied; exact ensureTransition_spelled spelled admissible
  | priority first order second => cases order <;> cases applied <;> exact spelled_same spelled rfl rfl rfl rfl rfl
  | note text => cases applied; exact spelled

theorem applyAll_fold (strict : Bool) (net : Net) (clauses : List Clause) :
    (net.applyAll strict clauses).value = clauses.foldlM (apply strict) net := by
  induction clauses generalizing net with
  | nil => rfl
  | cons clause rest ih =>
    rw [applyAll,List.foldlM_cons]
    cases net.apply strict clause with
    | error reason => rfl
    | ok next => exact ih next

theorem applyAll_sound (sound : net.Sound) (spelled : net.Spelled) (strict : Bool) (clauses : List Clause)
    (admissible : ∀ clause ∈ clauses, clause.Admissible) (applied : (net.applyAll strict clauses).value = .ok next) :
    next.Sound ∧ next.Spelled := by
  induction clauses generalizing net with
  | nil => cases applied; exact ⟨sound,spelled⟩
  | cons clause rest ih =>
    have first := admissible clause (by simp)
    unfold applyAll at applied
    cases result : net.apply strict clause with
    | error reason => rw [result] at applied; cases applied
    | ok middle =>
      rw [result] at applied
      exact ih (apply_sound sound strict clause first.measured result) (apply_spelled sound spelled strict clause first result)
        (fun other member => admissible other (List.mem_cons_of_mem _ member)) applied

theorem ofReading_ok (strict : Bool) (reading : Reading) (net : Net) :
    (ofReading strict reading).value = .ok net ↔
      (empty.applyAll strict reading.clauses).value = .ok net ∧ reading.ending = none := by
  unfold ofReading Logged.andThen
  cases (empty.applyAll strict reading.clauses).value with
  | error reason => simp [Logged.quiet]
  | ok other => cases reading.ending <;> simp [Logged.quiet]

theorem parse_sound (strict : Bool) (text : String) (net : Net) (parsed : (parse strict text).value = .ok net) :
    net.Sound ∧ net.Spelled := by
  obtain ⟨applied,_⟩ := (ofReading_ok _ _ _).mp parsed
  exact applyAll_sound empty_sound empty_spelled strict _ (readingOf_admissible text).clauses applied

end Net

end TimePetri
