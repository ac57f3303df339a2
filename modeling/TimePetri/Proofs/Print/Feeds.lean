import TimePetri.Proofs.Print.Reading

namespace TimePetri

open Script

-- What a list of arcs makes of a row, its places being numbered.
inductive Feeds (places : Array String) : List Arc → Row → Row → Prop where
  | nil (row : Row) : Feeds places [] row row
  | cons (p : Nat) (found : places[p]? = some arc.name) (connected : Row.connect row p arc.use arc.weight = .ok middle)
    (rest : Feeds places arcs middle next) : Feeds places (arc :: arcs) row next

variable {places : Array String} {row middle next target : Row} {name : String} {p : Nat} {w : Int64} {arcs more : List Arc}

theorem feeds_append (first : Feeds places arcs row middle) (second : Feeds places more middle next) :
    Feeds places (arcs ++ more) row next := by
  induction first with
  | nil => exact second
  | cons p found connected _ ih => exact .cons p found connected (ih second)

theorem feeds_one {arc : Arc} (found : places[p]? = some arc.name)
    (connected : row.connect p arc.use arc.weight = .ok next) :
    Feeds places [arc] row next := .cons p found connected (.nil next)

theorem feeds_optional (arc : Arc) (found : places[p]? = some arc.name) (same : arc.weight = 0 → next = row)
    (connected : row.connect p arc.use arc.weight = .ok next) : Feeds places (Net.Flow.arcs arc.weight arc) row next := by
  unfold Net.Flow.arcs
  split
  · next none => rw [same none]; exact .nil row
  · exact feeds_one found connected

theorem feeds_inhibit (row : Row) (w : Int64) (found : places[p]? = some name) (clear : row.cap.count p = 0) :
    ∃ cap, Feeds places (Net.Flow.arcs w ⟨name,.inhibit,w⟩) row { row with cap } ∧
      ∀ q, cap.count q = if q = p then w.toInt else row.cap.count q := by
  have counts := fun q => Marking.lower_count row.cap p w q
  have same : w = 0 → row.cap.lower p w = row.cap := by
    rintro rfl
    rfl
  refine ⟨row.cap.lower p w,feeds_optional ⟨name,.inhibit,w⟩ found (fun none => by rw [same none]) rfl,?_⟩
  intro q
  rw [counts q]
  by_cases here : q = p
  · subst here
    by_cases none : w.toInt = 0
    · simp [none,clear]
    · simp [none,clear]
  · simp [here]

theorem feeds_test (row : Row) (w : Int64) (found : places[p]? = some name) (clear : row.guard.count p = 0)
    (nonneg : 0 ≤ w.toInt) :
    ∃ guard, Feeds places (Net.Flow.arcs w ⟨name,.test,w⟩) row { row with guard } ∧
      ∀ q, guard.count q = if q = p then w.toInt else row.guard.count q := by
  have counts := fun q => Marking.raise_count row.guard p w q nonneg (by omega)
  have same : w = 0 → row.guard.raise p w = row.guard := by
    rintro rfl
    rfl
  refine ⟨row.guard.raise p w,feeds_optional ⟨name,.test,w⟩ found (fun none => by rw [same none]) rfl,?_⟩
  intro q
  rw [counts q,clear]
  split <;> omega

theorem feeds_consume (row : Row) (w : Int64) (found : places[p]? = some name) (clearPre : row.pre.count p = 0)
    (clearDelta : row.delta.count p = 0)
    (nonneg : 0 ≤ w.toInt) (held : 0 ≤ row.guard.count p) (room : row.guard.count p + w.toInt < wordLimit) :
    ∃ guard pre delta, Feeds places (Net.Flow.arcs w ⟨name,.consume,w⟩) row ⟨guard,row.cap,pre,delta⟩ ∧
      (∀ q, guard.count q = if q = p then row.guard.count p + w.toInt else row.guard.count q) ∧
      (∀ q, pre.count q = if q = p then -w.toInt else row.pre.count q) ∧
      ∀ q, delta.count q = if q = p then -w.toInt else row.delta.count q := by
  have limit := word_range w
  have low : -wordLimit ≤ -w.toInt := by omega
  have high : -w.toInt < wordLimit := by unfold wordLimit; omega
  obtain ⟨taken,negated,amount⟩ := checked_fits .neg (-w.toInt) low high
  obtain ⟨delta,deltaAdded⟩ := Marking.addAt_fits row.delta p taken (by omega) (by omega)
  obtain ⟨pre,preAdded⟩ := Marking.addAt_fits row.pre p taken (by omega) (by omega)
  obtain ⟨guard,guardAdded⟩ := Marking.addAt_fits row.guard p w (by unfold wordLimit; omega) room
  have deltaCount := Marking.addAt_count deltaAdded
  have preCount := Marking.addAt_count preAdded
  have guardCount := Marking.addAt_count guardAdded
  have connected : row.connect p .consume w = .ok ⟨guard,row.cap,pre,delta⟩ := by
    unfold Row.connect
    dsimp only
    rw [show negWord w = .ok taken from negated,ok_bind,deltaAdded,ok_bind,preAdded,ok_bind,guardAdded]
    rfl
  have same : w = 0 → (⟨guard,row.cap,pre,delta⟩ : Row) = row := by
    intro none
    have zero := (word_zero w).mp none
    rw [Marking.addAt_zero _ _ _ (by omega)] at deltaAdded preAdded guardAdded
    cases deltaAdded
    cases preAdded
    cases guardAdded
    rfl
  refine ⟨guard,pre,delta,feeds_optional ⟨name,.consume,w⟩ found same connected,?_,?_,?_⟩
  · intro q
    rw [guardCount]
    by_cases here : q = p
    · subst here; simp
    · simp [here]
  · intro q
    rw [preCount]
    by_cases here : q = p
    · subst here; simp [clearPre,amount]
    · simp [here]
  · intro q
    rw [deltaCount]
    by_cases here : q = p
    · subst here; simp [clearDelta,amount]
    · simp [here]

theorem feeds_produce (row : Row) (w : Int64) (found : places[p]? = some name)
    (low : -wordLimit ≤ row.delta.count p + w.toInt)
    (high : row.delta.count p + w.toInt < wordLimit) :
    ∃ delta, Feeds places (Net.Flow.arcs w ⟨name,.produce,w⟩) row { row with delta } ∧
      ∀ q, delta.count q = if q = p then row.delta.count p + w.toInt else row.delta.count q := by
  obtain ⟨delta,added⟩ := Marking.addAt_fits row.delta p w low high
  have counts := Marking.addAt_count added
  have connected : row.connect p .produce w = .ok { row with delta } := by
    unfold Row.connect
    dsimp only
    rw [added]
    rfl
  have same : w = 0 → { row with delta } = row := by
    intro none
    rw [Marking.addAt_zero _ _ _ ((word_zero w).mp none)] at added
    cases added
    rfl
  refine ⟨delta,feeds_optional ⟨name,.produce,w⟩ found same connected,?_⟩
  intro q
  rw [counts]
  by_cases here : q = p
  · subst here; simp
  · simp [here]

-- The input arcs of some places bring what a row asks for and takes there. What it
-- takes is all of the change until the output arcs are read.
structure Takes (target : Row) (ps : List Nat) (row next : Row) : Prop where
  guard : ∀ q, next.guard.count q = if q ∈ ps then target.guard.count q else row.guard.count q
  cap : ∀ q, next.cap.count q = if q ∈ ps then target.cap.count q else row.cap.count q
  pre : ∀ q, next.pre.count q = if q ∈ ps then target.pre.count q else row.pre.count q
  delta : ∀ q, next.delta.count q = if q ∈ ps then target.pre.count q else row.delta.count q

structure Clear (row : Row) (p : Nat) : Prop where
  guard : row.guard.count p = 0
  cap : row.cap.count p = 0
  pre : row.pre.count p = 0
  delta : row.delta.count p = 0

theorem inputs_feed {size : Nat} (sound : target.Sound size) (found : places[p]? = some name) (clear : Clear row p) :
    ∃ next, Feeds places ((target.flow p).inputArcs name) row next ∧ Takes target [p] row next := by
  have read := (Row.read_fits sound p).2
  have consumed := (Row.consumed_fits sound p).2
  have guarded := sound.guarded p
  have pre := sound.pre p
  have limit := target.guard.count_range p
  obtain ⟨cap,capFeeds,capCount⟩ := feeds_inhibit row (target.flow p).cap found clear.cap
  obtain ⟨guard,guardFeeds,guardCount⟩ := feeds_test { row with cap } (target.flow p).read found clear.guard (by omega)
  have here := guardCount p
  rw [if_pos rfl] at here
  obtain ⟨whole,pre,delta,feeds,wholeCount,preCount,deltaCount⟩ :=
    feeds_consume { row with cap, guard } (target.flow p).consumed found clear.pre clear.delta
      (by omega) (by show 0 ≤ guard.count p; omega) (by show guard.count p + _ < _; omega)
  refine ⟨⟨whole,cap,pre,delta⟩,feeds_append (feeds_append capFeeds guardFeeds) feeds,?_,?_,?_,?_⟩
  · intro q
    change whole.count q = _
    rw [wholeCount q]
    by_cases same : q = p
    · subst same
      rw [if_pos rfl,if_pos (by simp)]
      change guard.count q + _ = _
      omega
    · rw [if_neg same,if_neg (by simpa using same)]
      change guard.count q = _
      rw [guardCount q,if_neg same]
  · intro q
    change cap.count q = _
    rw [capCount q]
    by_cases same : q = p
    · subst same; simp [Row.flow,Marking.count]
    · simp [same]
  · intro q
    change pre.count q = _
    rw [preCount q]
    by_cases same : q = p
    · subst same; simp [consumed]
    · simp [same]
  · intro q
    change delta.count q = _
    rw [deltaCount q]
    by_cases same : q = p
    · subst same; simp [consumed]
    · simp [same]

theorem takes_cons {ps : List Nat} (fresh : p ∉ ps) (first : Takes target [p] row middle)
    (rest : Takes target ps middle next) :
    Takes target (p :: ps) row next := by
  constructor
  all_goals
    intro q
    have here := first.guard q
    have cap := first.cap q
    have pre := first.pre q
    have delta := first.delta q
    by_cases same : q = p
    · subst same
      simp_all [rest.guard q,rest.cap q,rest.pre q,rest.delta q]
    · simp_all [rest.guard q,rest.cap q,rest.pre q,rest.delta q]

theorem allInputs_feed {size : Nat} (sound : target.Sound size) (nameOf : Nat → String) (ps : List Nat)
    (distinct : ps.Nodup)
    (found : ∀ p ∈ ps, places[p]? = some (nameOf p)) (clear : ∀ p ∈ ps, Clear row p) :
    ∃ next, Feeds places (ps.flatMap fun p => (target.flow p).inputArcs (nameOf p)) row next ∧ Takes target ps row next := by
  induction ps generalizing row with
  | nil => exact ⟨row,.nil row,⟨by simp,by simp,by simp,by simp⟩⟩
  | cons p ps ih =>
    obtain ⟨fresh,others⟩ := List.nodup_cons.mp distinct
    obtain ⟨middle,feeds,takes⟩ := inputs_feed sound (found p (by simp)) (clear p (by simp))
    -- The arcs of one place leave the row as it was at the others.
    have stillClear : ∀ q ∈ ps, Clear middle q := by
      intro q member
      have old := clear q (List.mem_cons_of_mem _ member)
      have other : q ∉ [p] := by rintro here; exact fresh (List.mem_singleton.mp here ▸ member)
      exact ⟨by rw [takes.guard,if_neg other]; exact old.guard,by rw [takes.cap,if_neg other]; exact old.cap,
        by rw [takes.pre,if_neg other]; exact old.pre,by rw [takes.delta,if_neg other]; exact old.delta⟩
    obtain ⟨next,restFeeds,rest⟩ := ih others (fun q member => found q (List.mem_cons_of_mem _ member)) stillClear
    exact ⟨next,feeds_append feeds restFeeds,takes_cons fresh takes rest⟩

theorem allOutputs_feed {size : Nat} (sound : target.Sound size) (fits : ∀ p, target.produced p < wordLimit)
    (nameOf : Nat → String) (ps : List Nat) (distinct : ps.Nodup) (found : ∀ p ∈ ps, places[p]? = some (nameOf p))
    (taken : ∀ p ∈ ps, row.delta.count p = target.pre.count p) :
    ∃ delta, Feeds places (ps.flatMap fun p => (target.flow p).outputArcs (nameOf p)) row { row with delta } ∧
      ∀ q, delta.count q = if q ∈ ps then target.delta.count q else row.delta.count q := by
  induction ps generalizing row with
  | nil => exact ⟨row.delta,.nil row,by simp⟩
  | cons p ps ih =>
    obtain ⟨fresh,others⟩ := List.nodup_cons.mp distinct
    have before := taken p (by simp)
    have produced := (Row.flow_parts sound p (fits p)).produced
    have range := target.delta.count_range p
    obtain ⟨middle,feeds,counts⟩ := feeds_produce row (target.flow p).produced (found p (by simp))
      (by omega) (by omega)
    have stillTaken : ∀ q ∈ ps, middle.count q = target.pre.count q := by
      intro q member
      have other : q ≠ p := by rintro rfl; exact fresh member
      rw [counts q,if_neg other]
      exact taken q (List.mem_cons_of_mem _ member)
    obtain ⟨delta,restFeeds,rest⟩ :=
      @ih { row with delta := middle } others (fun q member => found q (List.mem_cons_of_mem _ member)) stillTaken
    refine ⟨delta,feeds_append feeds restFeeds,?_⟩
    intro q
    rw [rest q]
    by_cases same : q = p
    · subst same
      rw [if_neg fresh,if_pos (by simp)]
      change middle.count q = _
      rw [counts q,if_pos rfl]
      omega
    · by_cases later : q ∈ ps
      · rw [if_pos later,if_pos (List.mem_cons_of_mem _ later)]
      · rw [if_neg later,if_neg (by simp [same,later])]
        change middle.count q = _
        rw [counts q,if_neg same]

namespace Net

variable {net : Net} {t : Nat}

theorem restored {m filled : Marking} {ps : List Nat}
    (counts : ∀ q, m.count q = if q ∈ ps then filled.count q else Marking.empty.count q)
    (untouched : ∀ q, q ∉ ps → filled.count q = 0) : m = filled := by
  refine Marking.ext_count _ _ fun q => ?_
  rw [counts q]
  split
  · rfl
  · next missing => rw [untouched q missing,Marking.count_empty]

theorem row_feeds (sound : net.Sound) (fits : ∀ p, (net.row t).produced p < wordLimit) :
    Feeds net.places (net.inputArcs t ++ net.outputArcs t) .empty (net.row t) := by
  have row := sound.rows t
  have distinct : (net.row t).touched.Nodup := Priority.increasing_nodup _ (Row.touched_increasing _)
  have found : ∀ p ∈ (net.row t).touched, net.places[p]? = some (net.nameOf p) := by
    intro p member
    exact default_found _ _ (Row.touched_inside row member)
  have clear : ∀ p ∈ (net.row t).touched, Clear Row.empty p := fun p _ => ⟨by simp [Row.empty],by simp [Row.empty],
    by simp [Row.empty],by simp [Row.empty]⟩
  obtain ⟨middle,inputs,takes⟩ := allInputs_feed row net.nameOf _ distinct found clear
  have taken : ∀ p ∈ (net.row t).touched, middle.delta.count p = (net.row t).pre.count p := by
    intro p member
    rw [takes.delta p,if_pos member]
  obtain ⟨delta,outputs,counts⟩ := allOutputs_feed row fits net.nameOf _ distinct found taken
  have same : ({ middle with delta } : Row) = net.row t := by
    have untouched := Row.untouched (net.row t)
    have guard : middle.guard = (net.row t).guard := restored takes.guard fun q missing => (untouched q missing).1
    have cap : middle.cap = (net.row t).cap := restored takes.cap fun q missing => (untouched q missing).2.1
    have pre : middle.pre = (net.row t).pre := restored takes.pre fun q missing => (untouched q missing).2.2.1
    have unchanged : ∀ q, q ∉ (net.row t).touched → middle.delta.count q = Row.empty.delta.count q := by
      intro q missing
      rw [takes.delta q,if_neg missing]
    have change : delta = (net.row t).delta := by
      refine restored (fun q => ?_) fun q missing => (untouched q missing).2.2.2
      rw [counts q]
      split
      · rfl
      · next missing => exact unchanged q missing
    rw [guard,cap,pre,change]
  rw [← same]
  exact feeds_append inputs outputs

end Net

end TimePetri
