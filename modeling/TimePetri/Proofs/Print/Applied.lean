import TimePetri.Proofs.Print.Feeds

namespace TimePetri.Net

open Script Priority

variable {net base next : Net} {name label : String} {k p : Nat} {row : Row} {strict : Bool}

theorem setRow_setRow (net : Net) (k : Nat) (first second : Row) :
    (net.setRow k first).setRow k second = net.setRow k second := by
  simp [setRow]

theorem setRow_same (net : Net) (k : Nat) : net.setRow k (net.row k) = net := by
  simp [setRow,Net.row,set_same]

theorem apply_feeds (strict : Bool) (tabled : base.Tabled) (placeNames : base.places.toList.Nodup)
    (transitionNames : base.transitions.toList.Nodup) (found : base.transitions[k]? = some name) {arcs : List Arc} {last : Row}
    (feeds : Feeds base.places arcs row last) :
    (arcs.map (Arc.clause name)).foldlM (apply strict) (base.setRow k row) = .ok (base.setRow k last) := by
  have inside : k < base.transitions.size := (Array.getElem?_eq_some_iff.mp found).1
  generalize same : base.places = places at feeds
  induction feeds with
  | nil => rfl
  | @cons row middle arcs last arc p known connected _ ih =>
    have placed : (base.setRow k row).ensurePlace arc.name = (p,base.setRow k row) :=
      ensurePlace_known placeNames (by rw [← known,← same]; rfl)
    have declared : (base.setRow k row).ensureTransition name = (k,base.setRow k row) :=
      ensureTransition_known transitionNames found
    have here : apply strict (base.setRow k row) (arc.clause name) = .ok (base.setRow k middle) := by
      unfold Arc.clause apply
      dsimp only
      rw [placed]
      dsimp only
      rw [declared]
      dsimp only
      rw [connect_row _ _ _ _ _ (setRow_tabled tabled k row) inside,setRow_row tabled inside,if_pos rfl,connected,ok_map,
        setRow_setRow]
      rfl
    rw [List.map_cons,List.foldlM_cons,here,ok_bind]
    exact ih

theorem set_found {entry : α} (rows : Array α) (found : rows[k]? = some entry) : rows.setIfInBounds k entry = rows := by
  have same := set_same rows k entry
  rwa [found] at same

theorem placeLabel_applied (strict : Bool) (base : Net) (label : String)
    (placeNames : base.places.toList.Nodup) (found : base.places[p]? = some name)
    (unlabelled : base.placeLabels[p]? = some "") :
    (if label = "" then [] else [Clause.placeLabel name label]).foldlM (apply strict) base =
      .ok { base with placeLabels := base.placeLabels.setIfInBounds p label } := by
  by_cases none : label = ""
  · subst none
    rw [if_pos rfl,set_found _ unlabelled]
    rfl
  · rw [if_neg none,List.foldlM_cons]
    unfold apply
    dsimp only
    rw [ensurePlace_known placeNames found]
    rfl

theorem transitionLabel_applied (strict : Bool) (base : Net) (label : String)
    (transitionNames : base.transitions.toList.Nodup) (found : base.transitions[k]? = some name)
    (unlabelled : base.transitionLabels[k]? = some "") :
    (if label = "" then [] else [Clause.transitionLabel name label]).foldlM (apply strict) base =
      .ok { base with transitionLabels := base.transitionLabels.setIfInBounds k label } := by
  by_cases none : label = ""
  · subst none
    rw [if_pos rfl,set_found _ unlabelled]
    rfl
  · rw [if_neg none,List.foldlM_cons]
    unfold apply
    dsimp only
    rw [ensureTransition_known transitionNames found]
    rfl

theorem marking_applied (strict : Bool) (base : Net) (placeNames : base.places.toList.Nodup)
    (found : base.places[p]? = some name) (count : Int64)
    (token : Token) (initial : Marking) (unmarked : base.initial.count p = 0)
    (marked : ∀ q, initial.count q = if q = p then count.toInt else base.initial.count q) :
    (if count = 0 then [] else [Clause.marking name count token]).foldlM (apply strict) base = .ok { base with initial } := by
  have range := word_range count
  obtain ⟨sum,added⟩ := Marking.addAt_fits base.initial p count (by omega) (by omega)
  have same : sum = initial := Marking.ext_count _ _ fun q => by
    rw [Marking.addAt_count added,marked q]
    by_cases here : q = p
    · subst here; simp [unmarked]
    · simp [here]
  by_cases none : count = 0
  · rw [Marking.addAt_zero _ _ _ ((word_zero count).mp none)] at added
    cases added
    rw [if_pos none,← same]
    rfl
  · rw [if_neg none,List.foldlM_cons]
    unfold apply
    dsimp only
    rw [ensurePlace_known placeNames found]
    dsimp only
    rw [added,same]
    rfl

theorem interval_applied (strict : Bool) (base : Net) (transitionNames : base.transitions.toList.Nodup)
    (found : base.transitions[k]? = some name)
    (interval : Interval) (stored : interval.Stored) (token : Token) (fresh : base.time[k]? = some .unconstrained) :
    (if interval.isTrivial then [] else [Clause.interval name interval token]).foldlM (apply strict) base =
      .ok { base with time := base.time.setIfInBounds k interval } := by
  cases excludes : interval.isTrivial with
  | true =>
    rw [if_pos rfl,Interval.stored_trivial stored excludes,set_found _ fresh]
    rfl
  | false =>
    rw [if_neg (by simp),List.foldlM_cons]
    unfold apply
    dsimp only
    rw [ensureTransition_known transitionNames found]
    dsimp only
    unfold narrow
    rw [(fetch_ok _ _ _).mpr fresh]
    change (do
      let narrowed ← (Interval.unconstrained.intersection interval).mapError _
      pure { base with time := base.time.setIfInBounds k narrowed.normalize }) >>= _ = _
    rw [Interval.intersection_first (Interval.stored_declared stored excludes)]
    change Except.ok { base with time := base.time.setIfInBounds k interval.normalize } >>= _ = _
    rw [Interval.normalize_first excludes]
    rfl

theorem push_set (rows : Array α) (first second : α) :
    (rows.push first).setIfInBounds rows.size second = rows.push second := by
  refine Array.ext_getElem? fun i => ?_
  rw [Array.getElem?_setIfInBounds,Array.getElem?_push,Array.getElem?_push]
  by_cases same : rows.size = i
  · subst same; simp
  · simp [same,Ne.symm same]

theorem placeClauses_applied (strict : Bool) (base : Net) (label : String)
    (labels : base.placeLabels.size = base.places.size) (placeNames : base.places.toList.Nodup)
    (fresh : name ∉ base.places) (count : Int64) (initial : Marking) (unmarked : base.initial.count base.places.size = 0)
    (marked : ∀ q, initial.count q = if q = base.places.size then count.toInt else base.initial.count q) :
    (placeClauses name label count).foldlM (apply strict) base = .ok { base with
      places := base.places.push name
      placeLabels := base.placeLabels.push label
      initial := initial } := by
  have distinct := number_pushed _ placeNames name fresh
  have found : (base.places.push name)[base.places.size]? = some name := by simp
  have added : apply strict base (.place name) = .ok (base.addPlace name) := by
    unfold apply
    dsimp only
    rw [ensurePlace_fresh fresh]
  have labelled := placeLabel_applied strict (base.addPlace name) label distinct found
    (by simp [addPlace,← labels])
  have pushed : (base.addPlace name).placeLabels.setIfInBounds base.places.size label = base.placeLabels.push label := by
    rw [← labels]
    exact push_set _ _ _
  rw [pushed] at labelled
  unfold placeClauses
  rw [List.foldlM_cons,added,ok_bind,List.foldlM_append,labelled,ok_bind]
  exact marking_applied strict _ distinct found count _ initial unmarked marked

def declare (net : Net) (name label : String) (interval : Interval) : Net :=
  { net.addTransition name with
    transitionLabels := net.transitionLabels.push label
    time := net.time.push interval }

theorem declare_tabled (tabled : base.Tabled) (name label : String) (interval : Interval) :
    (base.declare name label interval).Tabled := by
  refine { addTransition_tabled tabled name with transitionLabels := ?_, time := ?_ }
  · simp [declare,addTransition,tabled.transitionLabels]
  · simp [declare,addTransition,tabled.time]

theorem declare_row (tabled : base.Tabled) (name label : String) (interval : Interval) :
    (base.declare name label interval).row base.transitions.size = .empty := by
  change (base.addTransition name).row base.transitions.size = .empty
  rw [addTransition_row]
  simp [Net.row,Row.empty,tabled.guard,tabled.cap,tabled.pre,tabled.delta]

theorem declare_setRow (tabled : base.Tabled) (name label : String) (interval : Interval) (row : Row) :
    (base.declare name label interval).setRow base.transitions.size row = { base.declare name label interval with
      guard := base.guard.push row.guard
      cap := base.cap.push row.cap
      pre := base.pre.push row.pre
      delta := base.delta.push row.delta } := by
  have guard := push_set base.guard .empty row.guard
  have cap := push_set base.cap .empty row.cap
  have pre := push_set base.pre .empty row.pre
  have delta := push_set base.delta .empty row.delta
  rw [tabled.guard] at guard
  rw [tabled.cap] at cap
  rw [tabled.pre] at pre
  rw [tabled.delta] at delta
  simp only [setRow,declare,addTransition,guard,cap,pre,delta]

theorem transitionClauses_applied (strict : Bool) (base : Net) (label : String) (tabled : base.Tabled)
    (placeNames : base.places.toList.Nodup)
    (transitionNames : base.transitions.toList.Nodup) (fresh : name ∉ base.transitions) (interval : Interval)
    (stored : interval.Stored) {arcs : List Arc} (feeds : Feeds base.places arcs .empty row) :
    (transitionClauses name label interval arcs).foldlM (apply strict) base = .ok { base with
      transitions := base.transitions.push name
      transitionLabels := base.transitionLabels.push label
      time := base.time.push interval
      guard := base.guard.push row.guard
      cap := base.cap.push row.cap
      pre := base.pre.push row.pre
      delta := base.delta.push row.delta
      prio := base.prio.push [] } := by
  have distinct := number_pushed _ transitionNames name fresh
  have found : (base.transitions.push name)[base.transitions.size]? = some name := by simp
  have added : apply strict base (.transition name) = .ok (base.addTransition name) := by
    unfold apply
    dsimp only
    rw [ensureTransition_fresh fresh]
  have labelled := transitionLabel_applied strict (base.addTransition name) label distinct found
    (by simp [addTransition,← tabled.transitionLabels])
  have labels : (base.addTransition name).transitionLabels.setIfInBounds base.transitions.size label =
      base.transitionLabels.push label := by
    rw [← tabled.transitionLabels]
    exact push_set _ _ _
  rw [labels] at labelled
  have timed := interval_applied strict { base.addTransition name with transitionLabels := base.transitionLabels.push label }
    distinct found interval stored (glyph .interval interval.shown) (by simp [addTransition,← tabled.time])
  have times : (base.addTransition name).time.setIfInBounds base.transitions.size interval = base.time.push interval := by
    rw [← tabled.time]
    exact push_set _ _ _
  rw [times] at timed
  have connected := apply_feeds strict (declare_tabled tabled name label interval)
    placeNames distinct found feeds
  rw [← declare_row tabled name label interval,setRow_same,declare_setRow tabled] at connected
  unfold transitionClauses
  rw [List.foldlM_cons,added,ok_bind,List.foldlM_append,List.foldlM_append,labelled,ok_bind,timed,ok_bind]
  exact connected

theorem mentions_applied (strict : Bool) (base : Net) (distinct : base.transitions.toList.Nodup) (names : List String)
    (known : ∀ name ∈ names, name ∈ base.transitions) :
    (mentions names).foldlM (apply strict) base = .ok base := by
  induction names with
  | nil => rfl
  | cons name rest ih =>
    obtain ⟨t,found⟩ := Array.mem_iff_getElem?.mp (known name (by simp))
    have number : base.transitionIndex? name = some t := (number_exact _ distinct _ _).mpr found
    have here : apply strict base (.mention (glyph .ident name.toList)) = .ok base := by
      rw [apply_mention,glyph_text,number,ensureTransition_known distinct found]
      simp
    change (apply strict base (.mention (glyph .ident name.toList)) >>= fun next => (mentions rest).foldlM (apply strict) next) = _
    rw [here,ok_bind]
    exact ih fun other member => known other (List.mem_cons_of_mem _ member)

theorem numberAll_namesOf (base : Net) (distinct : base.transitions.toList.Nodup) (numbers : List Nat)
    (increasing : Increasing numbers) (inside : ∀ u ∈ numbers, u < base.transitions.size) :
    base.numberAll (base.namesOf numbers) = numbers := by
  refine numberAll_exact distinct _ _ increasing ?_
  rw [namesOf,List.map_map]
  refine List.map_congr_left fun u member => ?_
  simp [Array.getElem?_eq_getElem (inside u member)]

theorem priorityClauses_applied (strict : Bool) (base : Net) (distinct : base.transitions.toList.Nodup)
    (found : base.transitions[k]? = some name) (lower : List Nat) (increasing : Increasing lower)
    (inside : ∀ u ∈ lower, u < base.transitions.size) :
    (priorityClauses name (base.namesOf lower)).foldlM (apply strict) base =
      .ok { base with prio := base.prio.modify k (union · lower) } := by
  have known : ∀ other ∈ name :: base.namesOf lower, other ∈ base.transitions := by
    intro other member
    rcases List.mem_cons.mp member with rfl | member
    · exact Array.mem_of_getElem? found
    · obtain ⟨u,inLower,rfl⟩ := List.mem_map.mp member
      exact default_member _ _ (inside u inLower)
  have upper : base.numberAll [name] = [k] :=
    numberAll_exact distinct [k] [name] (increasing_singleton k) (by simp [found])
  unfold priorityClauses
  rw [List.foldlM_append,mentions_applied strict base distinct _ known,ok_bind,List.foldlM_cons]
  change Except.ok (base.prioritize (base.numberAll [name]) (base.numberAll (base.namesOf lower))) >>= _ = _
  rw [upper,numberAll_namesOf base distinct lower increasing inside]
  rfl

end TimePetri.Net
