import TimePetri.Proofs.Print.Applied

namespace TimePetri.Net

open Script Priority

variable {net : Net} {name : String} {lower : List Nat} {k t : Nat}

-- The nets on the way: with the first places, with the first transitions, and with
-- the priorities of the first transitions.
def placed (net : Net) (k : Nat) : Net :=
  { empty with
    name := net.name
    places := net.places.extract 0 k
    placeLabels := net.placeLabels.extract 0 k
    initial := net.initial.below k }

def declared (net : Net) (k : Nat) : Net :=
  { net with
    transitions := net.transitions.extract 0 k
    transitionLabels := net.transitionLabels.extract 0 k
    time := net.time.extract 0 k
    guard := net.guard.extract 0 k
    cap := net.cap.extract 0 k
    pre := net.pre.extract 0 k
    delta := net.delta.extract 0 k
    prio := Array.replicate k [] }

def ranked (net : Net) (k : Nat) : Net :=
  { net with prio := net.prio.mapIdx fun t lower => if t < k then lower else [] }

theorem extract_next {entry : α} (rows : Array α) (found : rows[k]? = some entry) :
    rows.extract 0 (k + 1) = (rows.extract 0 k).push entry := by
  obtain ⟨inside,rfl⟩ := Array.getElem?_eq_some_iff.mp found
  rw [Array.push_extract_getElem inside,Nat.zero_min]

theorem extract_size (rows : Array α) (inside : k < rows.size) : (rows.extract 0 k).size = k := by
  rw [Array.size_extract]
  omega

theorem extract_distinct (names : Array String) (distinct : names.toList.Nodup) (k : Nat) :
    (names.extract 0 k).toList.Nodup := by
  rw [Array.toList_extract,List.extract_eq_take_drop,List.drop_zero]
  exact distinct.sublist (List.take_sublist _ _)

theorem extract_fresh (names : Array String) (distinct : names.toList.Nodup) (found : names[k]? = some name) :
    name ∉ names.extract 0 k := by
  intro member
  have next := extract_distinct names distinct (k + 1)
  rw [extract_next names found,Array.toList_push,List.nodup_append] at next
  exact next.2.2 name (Array.mem_toList_iff.mpr member) name (by simp) rfl

theorem place_rebuilt (strict : Bool) (sound : net.Sound) (found : net.places[k]? = some name) :
    (net.placeRow name k).foldlM (apply strict) (net.placed k) = .ok (net.placed (k + 1)) := by
  have inside := (Array.getElem?_eq_some_iff.mp found).1
  have size := extract_size net.places inside
  have labelled := default_found net.placeLabels "" (sound.placeLabels ▸ inside)
  have labels : (net.placeLabels.extract 0 k).size = (net.places.extract 0 k).size := by
    rw [size,extract_size _ (sound.placeLabels ▸ inside)]
  have unmarked : (net.initial.below k).count (net.places.extract 0 k).size = 0 := by
    rw [size,Marking.below_count,if_neg (Nat.lt_irrefl k)]
  have marked : ∀ q, (net.initial.below (k + 1)).count q =
      if q = (net.places.extract 0 k).size then (net.initial.get k).toInt else (net.initial.below k).count q := by
    intro q
    rw [size,Marking.below_count,Marking.below_count]
    by_cases here : q = k
    · subst here
      rw [if_pos (Nat.lt_succ_self q),if_pos rfl]
      rfl
    · by_cases earlier : q < k
      · rw [if_pos (by omega),if_neg here,if_pos earlier]
      · rw [if_neg (by omega),if_neg here,if_neg earlier]
  unfold placeRow
  rw [placeClauses_applied strict (net.placed k) _ labels (extract_distinct _ sound.placeNames k)
    (extract_fresh _ sound.placeNames found) _ _ unmarked marked]
  simp only [placed,extract_next _ found,extract_next _ labelled]

theorem declared_tabled (sound : net.Sound) (inside : k < net.transitions.size) : (net.declared k).Tabled := by
  have tabled := sound.tabled
  have size := extract_size net.transitions inside
  constructor
  case transitionLabels => exact (extract_size _ (tabled.transitionLabels ▸ inside)).trans size.symm
  case time => exact (extract_size _ (tabled.time ▸ inside)).trans size.symm
  case guard => exact (extract_size _ (tabled.guard ▸ inside)).trans size.symm
  case cap => exact (extract_size _ (tabled.cap ▸ inside)).trans size.symm
  case pre => exact (extract_size _ (tabled.pre ▸ inside)).trans size.symm
  case delta => exact (extract_size _ (tabled.delta ▸ inside)).trans size.symm
  case prio => exact Array.size_replicate.trans size.symm

theorem transition_rebuilt (strict : Bool) (sound : net.Sound) (fits : ∀ p, (net.row k).produced p < wordLimit)
    (found : net.transitions[k]? = some name) :
    (net.transitionRow name k).foldlM (apply strict) (net.declared k) = .ok (net.declared (k + 1)) := by
  have inside := (Array.getElem?_eq_some_iff.mp found).1
  have tabled := sound.tabled
  have labelled := default_found net.transitionLabels "" (tabled.transitionLabels ▸ inside)
  have timed := default_found net.time .unconstrained (tabled.time ▸ inside)
  have guarded : net.guard[k]? = some (net.row k).guard := default_found net.guard .empty (tabled.guard ▸ inside)
  have capped : net.cap[k]? = some (net.row k).cap := default_found net.cap .empty (tabled.cap ▸ inside)
  have taken : net.pre[k]? = some (net.row k).pre := default_found net.pre .empty (tabled.pre ▸ inside)
  have changed : net.delta[k]? = some (net.row k).delta := default_found net.delta .empty (tabled.delta ▸ inside)
  have stored := sound.times _ (Array.mem_of_getElem? timed)
  have feeds := row_feeds sound fits
  have applied := transitionClauses_applied strict (net.declared k) (net.transitionLabels[k]?.getD "")
    (declared_tabled sound inside) sound.placeNames (extract_distinct _ sound.transitionNames k)
    (extract_fresh _ sound.transitionNames found) _ stored feeds
  unfold transitionRow
  rw [applied]
  simp only [declared,extract_next _ found,extract_next _ labelled,extract_next _ timed,extract_next _ guarded,
    extract_next _ capped,extract_next _ taken,extract_next _ changed,Array.replicate_succ]

theorem ranked_entry (net : Net) (k t : Nat) :
    (net.ranked k).prio[t]? = net.prio[t]?.map fun lower => if t < k then lower else [] := Array.getElem?_mapIdx

theorem ranked_other (net : Net) (different : k ≠ t) : (net.ranked (k + 1)).prio[t]? = (net.ranked k).prio[t]? := by
  have same : t < k + 1 ↔ t < k := by omega
  simp only [ranked_entry,same]

theorem ranked_next (net : Net) (found : net.prio[k]? = some lower) (increasing : Increasing lower) :
    (net.ranked k).prio.modify k (union · lower) = (net.ranked (k + 1)).prio := by
  refine Array.ext_getElem? fun t => ?_
  rw [Array.getElem?_modify]
  by_cases here : k = t
  · subst here
    simp [ranked_entry,found,union_nil _ increasing]
  · rw [if_neg here,ranked_other net here]

theorem ranked_none (net : Net) (found : net.prio[k]? = some []) : net.ranked (k + 1) = net.ranked k := by
  have same : (net.ranked (k + 1)).prio = (net.ranked k).prio := by
    refine Array.ext_getElem? fun t => ?_
    by_cases here : k = t
    · subst here
      simp [ranked_entry,found]
    · exact ranked_other net here
  change { net with prio := (net.ranked (k + 1)).prio } = { net with prio := (net.ranked k).prio }
  rw [same]

theorem priority_rebuilt (strict : Bool) (sound : net.Sound) (found : net.prio[k]? = some lower) :
    (net.priorityRow lower k).foldlM (apply strict) (net.ranked k) = .ok (net.ranked (k + 1)) := by
  have among := Array.mem_toList_iff.mpr (Array.mem_of_getElem? found)
  have increasing := sound.ordered lower among
  have inside : ∀ u ∈ lower, u < net.transitions.size := fun u member => sound.tabled.prio ▸ sound.inTable lower among u member
  have known : k < net.transitions.size := sound.tabled.prio ▸ (Array.getElem?_eq_some_iff.mp found).1
  have next := ranked_next net found increasing
  unfold priorityRow
  cases lower with
  | nil =>
    rw [ranked_none net found]
    rfl
  | cons u more =>
    have applied := priorityClauses_applied strict (net.ranked k) sound.transitionNames
      (default_found net.transitions "" known) (u :: more) increasing inside
    rw [next] at applied
    exact applied

theorem rows_rebuilt (strict : Bool) (stage : Nat → Net) (clauses : α → Nat → List Clause) (rows : List α)
    (start : Nat)
    (each : ∀ index row, rows[index]? = some row →
      (clauses row (start + index)).foldlM (apply strict) (stage (start + index)) = .ok (stage (start + index + 1))) :
    ((rows.zipIdx start).flatMap fun (row,index) => clauses row index).foldlM (apply strict) (stage start) =
      .ok (stage (start + rows.length)) := by
  induction rows generalizing start with
  | nil => rfl
  | cons row rest ih =>
    have first := each 0 row rfl
    rw [Nat.add_zero] at first
    have later := ih (start + 1) fun index other found => by
      have next := each (index + 1) other found
      rwa [show start + (index + 1) = start + 1 + index by omega] at next
    rw [List.zipIdx_cons,List.flatMap_cons,List.foldlM_append,first,ok_bind,later,List.length_cons]
    rw [show start + 1 + rest.length = start + (rest.length + 1) by omega]

theorem eachRow_rebuilt (strict : Bool) (stage : Nat → Net) (clauses : α → Nat → List Clause) (rows : Array α)
    (each : ∀ index row, rows[index]? = some row →
      (clauses row index).foldlM (apply strict) (stage index) = .ok (stage (index + 1))) :
    (eachRow rows clauses).foldlM (apply strict) (stage 0) = .ok (stage rows.size) := by
  have all := rows_rebuilt strict stage clauses rows.toList 0 fun index row found => by
    rw [Array.getElem?_toList] at found
    rw [Nat.zero_add]
    exact each index row found
  rwa [Nat.zero_add] at all

theorem head_rebuilt (strict : Bool) (net : Net) :
    net.headClauses.foldlM (apply strict) empty = .ok (net.placed 0) := by
  have start : net.placed 0 = { empty with name := net.name } := by
    have none : net.initial.below 0 = .empty := Marking.ext_count _ _ fun q => by simp [Marking.below_count]
    simp [placed,none,empty]
  rw [start]
  unfold headClauses
  by_cases unnamed : net.name = ""
  · rw [if_pos unnamed,unnamed]
    rfl
  · rw [if_neg unnamed]
    rfl

theorem extract_all (rows : Array α) (same : rows.size = k) : rows.extract 0 k = rows := by
  subst same
  exact Array.extract_size

theorem placed_all (sound : net.Sound) : net.placed net.places.size = net.declared 0 := by
  have whole : net.initial.below net.places.size = net.initial := Marking.ext_count _ _ fun q => by
    rw [Marking.below_count]
    split
    · rfl
    · next outside => exact (Decidable.byContradiction fun present => outside (sound.initialWithin q present)).symm
  simp [placed,declared,whole,extract_all net.placeLabels sound.placeLabels,empty]

theorem declared_all (sound : net.Sound) : net.declared net.transitions.size = net.ranked 0 := by
  have tabled := sound.tabled
  have none : Array.replicate net.transitions.size [] = (net.ranked 0).prio := by
    refine Array.ext_getElem? fun t => ?_
    rw [ranked_entry,Array.getElem?_replicate,← tabled.prio]
    by_cases inside : t < net.prio.size
    · simp [inside]
    · simp [inside]
  simp only [declared,extract_all _ rfl,extract_all _ tabled.transitionLabels,extract_all _ tabled.time,
    extract_all _ tabled.guard,extract_all _ tabled.cap,extract_all _ tabled.pre,extract_all _ tabled.delta,none]
  rfl

theorem ranked_all (net : Net) : net.ranked net.prio.size = net := by
  have same : (net.ranked net.prio.size).prio = net.prio := by
    refine Array.ext_getElem? fun t => ?_
    rw [ranked_entry]
    by_cases inside : t < net.prio.size
    · simp [inside]
    · simp [inside]
  change { net with prio := (net.ranked net.prio.size).prio } = net
  rw [same]

theorem clauses_rebuild (sound : net.Sound) (fits : ∀ t p, (net.row t).produced p < wordLimit) (strict : Bool) :
    net.clauses.foldlM (apply strict) empty = .ok net := by
  have places := eachRow_rebuilt strict net.placed net.placeRow net.places fun _ _ found => place_rebuilt strict sound found
  have transitions := eachRow_rebuilt strict net.declared net.transitionRow net.transitions fun t _ found =>
    transition_rebuilt strict sound (fits t) found
  have priorities := eachRow_rebuilt strict net.ranked net.priorityRow net.prio fun _ _ found =>
    priority_rebuilt strict sound found
  rw [placed_all sound] at places
  rw [declared_all sound] at transitions
  rw [ranked_all] at priorities
  unfold clauses
  rw [List.foldlM_append,List.foldlM_append,List.foldlM_append,head_rebuilt,ok_bind,places,ok_bind,transitions,ok_bind]
  exact priorities

end TimePetri.Net
