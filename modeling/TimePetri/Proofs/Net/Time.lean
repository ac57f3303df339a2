import TimePetri.Proofs.Interval.Times
import TimePetri.Proofs.Net.Cells
import TimePetri.Proofs.Net.Declared
import TimePetri.Proofs.Script.Literals

namespace TimePetri

open Script

namespace Net

variable {strict : Bool} {net next : Net} {name other : String} {t : Nat} {interval : Interval} {token : Token}
  {clause : Clause} {clauses : List Clause}

def timeOf (net : Net) (name : String) : Interval :=
  ((net.transitionIndex? name).bind (net.time[·]?)).getD .unconstrained

theorem timeOf_known (sound : net.Sound) (known : net.transitions[t]? = some name) :
    net.time[t]? = some (net.timeOf name) := by
  have inside : t < net.time.size := sound.tabled.time ▸ (Array.getElem?_eq_some_iff.mp known).1
  unfold timeOf transitionIndex?
  rw [(number_exact _ sound.transitionNames _ _).mpr known,Option.bind_some,Array.getElem?_eq_getElem inside,Option.getD_some]

theorem timeOf_stored (sound : net.Sound) (name : String) : (net.timeOf name).Stored := by
  unfold timeOf
  cases found : (net.transitionIndex? name).bind (net.time[·]?) with
  | none => exact .inl rfl
  | some interval =>
    obtain ⟨t,_,stands⟩ := Option.bind_eq_some_iff.mp found
    exact sound.times interval (Array.mem_of_getElem? stands)

theorem ensurePlace_timeOf (net : Net) (place name : String) : (net.ensurePlace place).2.timeOf name = net.timeOf name := by
  rcases ensurePlace_cases net place with ⟨q,_,known⟩ | ⟨_,added⟩
  · rw [known]
  · rw [added]
    rfl

theorem ensureTransition_timeOf (sound : net.Sound) (other name : String) :
    (net.ensureTransition other).2.timeOf name = net.timeOf name := by
  rcases ensureTransition_cases net other with ⟨q,_,known⟩ | ⟨_,added⟩
  · rw [known]
  · rw [added]
    unfold timeOf transitionIndex? addTransition
    dsimp only
    rw [number_push,← sound.tabled.time]
    cases found : net.transitions.idxOf? name with
    | some t =>
      have inside := (Array.getElem?_eq_some_iff.mp (number_found _ _ _ found)).1
      rw [← sound.tabled.time] at inside
      simp [Array.getElem?_push_lt,inside]
    | none => by_cases same : other = name <;> simp [same]

theorem narrow_timeOf (sound : net.Sound) (known : net.transitions[t]? = some other)
    (narrowed : net.narrow t other interval token = .ok next) (name : String) :
    if other = name then ∃ result, (net.timeOf name).intersection interval = .ok result ∧ next.timeOf name = result.normalize
    else next.timeOf name = net.timeOf name := by
  obtain ⟨current,result,found,intersected,rfl⟩ := narrow_parts interval token narrowed
  have number := number_same sound.transitionNames known name
  have inside := (Array.getElem?_eq_some_iff.mp found).1
  split
  · next same =>
    subst same
    have here := (timeOf_known sound known).symm.trans found
    refine ⟨result,by rw [Option.some.inj here]; exact intersected,?_⟩
    unfold timeOf transitionIndex?
    rw [number.mpr rfl]
    simp [inside]
  · next apart =>
    unfold timeOf transitionIndex?
    dsimp only
    cases place : net.transitions.idxOf? name with
    | none => rfl
    | some u =>
      have different : t ≠ u := by
        rintro rfl
        exact apart (number.mp place)
      simp [different]

theorem apply_timeOf (sound : net.Sound) (applied : net.apply strict clause = .ok next) (name : String) :
    match clause.interval? name with
    | none => next.timeOf name = net.timeOf name
    | some interval => ∃ result, (net.timeOf name).intersection interval = .ok result ∧ next.timeOf name = result.normalize := by
  cases clause with
  | interval other interval token =>
    have kept := ensureTransition_timeOf sound other name
    have narrowed := narrow_timeOf (ensureTransition_sound sound other) (ensureTransition_number net other) applied name
    rw [interval?_interval]
    split at narrowed
    · next same => rw [if_pos same,← kept]; exact narrowed
    · next apart => rw [if_neg apart,← kept]; exact narrowed
  | netName other => cases applied; rfl
  | transition other => cases applied; exact ensureTransition_timeOf sound other name
  | transitionLabel other label => cases applied; exact ensureTransition_timeOf sound other name
  | place place => cases applied; exact ensurePlace_timeOf net place name
  | placeLabel place label => cases applied; exact ensurePlace_timeOf net place name
  | marking place count token =>
    obtain ⟨initial,_,same⟩ := bind_ok.mp applied
    cases same
    exact ensurePlace_timeOf net place name
  | arc place transition use weight token =>
    have placed := ensurePlace_sound sound place
    have sounds := ensureTransition_sound placed transition
    obtain ⟨row,_,rfl⟩ := connect_parts sounds (ensureTransition_inside _ _) (mapError_ok.mp applied)
    exact (ensureTransition_timeOf placed transition name).trans (ensurePlace_timeOf net place name)
  | mention token =>
    unfold apply at applied
    dsimp only at applied
    split at applied
    · cases applied
    · cases applied; exact ensureTransition_timeOf sound token.text name
  | priority first order second => cases order <;> cases applied <;> rfl
  | note text => cases applied; rfl

theorem interval_refused (sound : net.Sound) (declared : interval.Declared) (strict : Bool) (name : String) (token : Token)
    (none : ¬ ∃ x, (net.timeOf name).Admits x ∧ interval.Admits x) :
    ∃ empty, net.apply strict (.interval name interval token) = .error (.interval token name (.empty empty)) := by
  have known := timeOf_known (ensureTransition_sound sound name) (ensureTransition_number net name)
  rw [ensureTransition_timeOf sound] at known
  rcases Interval.intersection_times (timeOf_stored sound name) declared with ⟨result,_,first,both⟩ | ⟨⟨empty,refused⟩,_⟩
  · obtain ⟨x,admits⟩ := Interval.declared_times first
    exact absurd ⟨x,(both x).mp admits⟩ none
  · refine ⟨empty,?_⟩
    unfold apply narrow
    dsimp only
    rw [fetch,known]
    simp only [ok_mapError,ok_bind,refused,error_mapError,error_bind]

-- What a net allows for each transition is what its intervals so far have in common.
def Timed (clauses : List Clause) (net : Net) : Prop :=
  ∀ name x, (net.timeOf name).Admits x ↔ 0 ≤ x ∧ ∀ interval ∈ intervalsOf name clauses, interval.Admits x

theorem apply_timed (sound : net.Sound) (timed : Timed clauses net) (measured : clause.Measured)
    (applied : net.apply strict clause = .ok next) : Timed (clauses ++ [clause]) next := by
  intro name x
  have changed := apply_timeOf sound applied name
  have before := timed name x
  unfold intervalsOf at before ⊢
  rw [List.filterMap_append]
  cases said : clause.interval? name with
  | none =>
    rw [said] at changed
    simp [changed,before,said]
  | some interval =>
    rw [said] at changed
    obtain ⟨result,intersected,same⟩ := changed
    have declared := interval?_declared measured said
    rcases Interval.intersection_times (timeOf_stored sound name) declared with ⟨first,here,whole,both⟩ | ⟨⟨_,refused⟩,_⟩
    · cases intersected.symm.trans here
      rw [same,Interval.normalize_admits whole,both,before]
      simp [said,or_imp,forall_and,and_assoc]
    · cases intersected.symm.trans refused

theorem run_timed (measured : ∀ clause ∈ clauses, clause.Measured) (applied : clauses.foldlM (apply strict) empty = .ok net) :
    Timed clauses net :=
  run_induction (motive := Timed) (fun _ x => by simp [timeOf,transitionIndex?,empty,intervalsOf,Interval.unconstrained_admits])
    (fun _ _ _ _ sound timed measured applied => apply_timed sound timed measured applied) clauses measured applied

end Net

end TimePetri
