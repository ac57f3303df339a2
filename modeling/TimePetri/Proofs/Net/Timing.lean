import TimePetri.Proofs.Net.Strict
import TimePetri.Proofs.Net.Time

namespace TimePetri

namespace Script

def Token.Allows (token : Token) (x : ℚ) : Prop :=
  ∃ left right, bounds? token.text = some (left,right) ∧ (⟨left,right⟩ : Interval).Admits x

def Common (tokens : List Token) (x : ℚ) : Prop := 0 ≤ x ∧ ∀ token ∈ tokens, token.Allows x

variable {token : Token} {tokens front rest : List Token} {clauses : List Clause} {mode last : Mode} {name text : String}
  {interval : Interval} {left right : Bound} {x : ℚ}

theorem common_same {others : List Token} (same : (tokens.map Token.text).Perm (others.map Token.text)) :
    Common tokens x ↔ Common others x := by
  have texts (list : List Token) : (∀ token ∈ list, token.Allows x) ↔
      ∀ text ∈ list.map Token.text, ∃ left right, bounds? text = some (left,right) ∧ (⟨left,right⟩ : Interval).Admits x := by
    rw [List.forall_mem_map]
    rfl
  unfold Common
  rw [texts tokens,texts others]
  simp only [same.mem_iff]

theorem bounds_left (bounds : bounds? text = some (left,right)) : ∃ v, left.value? = some v ∧ 0 ≤ v.toInt := by
  have nonneg := (bounds_nonneg text left right bounds).1
  suffices valued : ∃ v, left.value? = some v by
    obtain ⟨v,value⟩ := valued
    exact ⟨v,value,nonneg v value⟩
  unfold bounds? at bounds
  split at bounds
  · next opening low high closing _ =>
    obtain ⟨l,_,rest⟩ := Option.bind_eq_some_iff.mp bounds
    split at rest
    · cases rest
      exact ⟨l,leftBound_value _ _⟩
    · obtain ⟨r,_,rest⟩ := Option.bind_eq_some_iff.mp rest
      cases rest
      exact ⟨l,leftBound_value _ _⟩
  · cases bounds

theorem readInterval_times (name : String) (bounds : bounds? token.text = some (left,right)) :
    readInterval token name =
      if (⟨left,right⟩ : Interval).isEmpty then .error (.interval token name (.empty ⟨left,right⟩)) else .ok ⟨left,right⟩ := by
  obtain ⟨v,value,_⟩ := bounds_left bounds
  have finite : left.isInfinite = false := by cases left <;> first | rfl | cases value
  unfold readInterval
  rw [bounds]
  dsimp only
  unfold Interval.make
  rw [finite,if_neg (by simp),Interval.inhabited]
  split <;> rfl

theorem readInterval_allows (read : readInterval token name = .ok interval) (x : ℚ) : token.Allows x ↔ interval.Admits x := by
  cases bounds : bounds? token.text with
  | none =>
    unfold readInterval at read
    rw [bounds] at read
    cases read
  | some both =>
    obtain ⟨left,right⟩ := both
    rw [readInterval_times name bounds] at read
    split at read
    · cases read
    · cases read
      unfold Token.Allows
      simp [bounds]

theorem passes_common (passes : Passes .top front clauses last) (name : String) (x : ℚ) :
    Common (literals name front) x ↔ 0 ≤ x ∧ ∀ interval ∈ intervalsOf name clauses, interval.Admits x := by
  have intervals := (passes_literals passes trivial).2.2 name
  refine and_congr_right fun _ => ⟨fun all interval member => ?_,fun all token member => ?_⟩
  · have here : (.ok interval : Except ParseError Interval) ∈ (literals name front).map (readInterval · name) :=
      intervals ▸ List.mem_map_of_mem member
    obtain ⟨token,inText,read⟩ := List.mem_map.mp here
    exact (readInterval_allows read x).mp (all token inText)
  · have here : readInterval token name ∈ (intervalsOf name clauses).map .ok :=
      intervals ▸ List.mem_map_of_mem (f := (readInterval · name)) member
    obtain ⟨interval,said,read⟩ := List.mem_map.mp here
    exact (readInterval_allows read.symm x).mpr (all interval said)

theorem heading_named (named : mode.heading = .named name) :
    ∃ stage, mode = .body (.transition name) stage ∧ (stage = .named ∨ stage = .labelled) := by
  unfold Mode.heading at named
  split at named
  · cases named
  · cases named; exact ⟨.named,rfl,.inl rfl⟩
  · cases named; exact ⟨.labelled,rfl,.inr rfl⟩
  · cases named

theorem step_interval (named : mode.heading = .named name) (kind : token.kind = .interval) :
    step mode token = match readInterval token name with
      | .error reason => stop reason
      | .ok interval => emit (.interval name interval token) (.body (.transition name) .measured) := by
  obtain ⟨stage,rfl,early⟩ := heading_named named
  rw [Reader.step_body (by simp [kind])]
  change stepTransition name stage token = _
  unfold stepTransition
  rw [kind]
  dsimp only
  rw [if_pos early]
  cases readInterval token name <;> rfl

end Script

open Script

theorem Reader.run_passes {strict : Bool} {net next : Net} {mode last : Mode} {front : List Token} {clauses : List Clause}
    (passes : Passes mode front clauses last) (applied : clauses.foldlM (Net.apply strict) net = .ok next)
    (rest : List Token) : run strict net mode (front ++ rest) = run strict next last rest := by
  induction passes generalizing net with
  | none mode => cases applied; rfl
  | one taken further ih =>
    rw [List.foldlM_append] at applied
    obtain ⟨middle,now,later⟩ := bind_ok.mp applied
    rw [List.cons_append,run,taken]
    dsimp only
    rw [now]
    exact ih later

theorem Reader.run_interval {strict : Bool} {net : Net} {mode : Mode} {name : String} {token : Token}
    (named : mode.heading = .named name) (kind : token.kind = .interval) (rest : List Token) :
    run strict net mode (token :: rest) = (do
      let interval ← readInterval token name
      let next ← net.apply strict (.interval name interval token)
      run strict next (.body (.transition name) .measured) rest) := by
  have taken := step_interval named kind
  cases result : readInterval token name with
  | error reason =>
    rw [result] at taken
    rw [run_stops taken]
    rfl
  | ok interval =>
    rw [result] at taken
    rw [run_emits taken]
    rfl

namespace Net

variable {strict : Bool} {net : Net} {text name : String} {front rest : List Token} {token : Token} {t : Nat}

theorem front_read (read : (ofReading strict (readingFrom .top front)).value = .ok net) :
    ∃ clauses last, Passes .top front clauses last ∧ clauses.foldlM (apply strict) empty = .ok net := by
  obtain ⟨applied,whole⟩ := (ofReading_ok _ _ _).mp read
  obtain ⟨clauses,last,passes⟩ := reading_whole front whole
  have same := passes_reading passes []
  rw [List.append_nil] at same
  rw [applyAll_fold,same] at applied
  refine ⟨clauses,last,passes,?_⟩
  simpa [Reading.prepend,readingFrom] using applied

theorem front_timed (stands : tokens text = front ++ rest)
    (read : (ofReading strict (readingFrom .top front)).value = .ok net) (name : String) (x : ℚ) :
    (net.timeOf name).Admits x ↔ Common (literals name front) x := by
  obtain ⟨clauses,last,passes,applied⟩ := front_read read
  rw [passes_common passes]
  exact run_timed (passes_measured stands passes) applied name x

theorem parse_timed (parsed : (parse strict text).value = .ok net) (name : String) (x : ℚ) :
    (net.timeOf name).Admits x ↔ Common (literals name (tokens text)) x :=
  front_timed (List.append_nil _).symm parsed name x

theorem interval_reached (stands : tokens text = front ++ token :: rest)
    (read : (ofReading strict (readingFrom .top front)).value = .ok net) (named : Heading.none.along front = .named name)
    (kind : token.kind = .interval) :
    (bounds? token.text = none → (parse strict text).value = .error (.lexical token)) ∧
      (bounds? token.text ≠ none → (¬ ∃ x, Common (literals name (front ++ [token])) x) →
        ∃ empty, (parse strict text).value = .error (.interval token name (.empty empty))) := by
  obtain ⟨clauses,last,passes,applied⟩ := front_read read
  have heading : last.heading = .named name := (passes_literals passes trivial).2.1.trans named
  have parsed : (parse strict text).value = Reader.run strict net last (token :: rest) := by
    rw [Reader.parse_run,stands,Reader.run_passes passes applied]
  rw [parsed,Reader.run_interval heading kind]
  constructor
  · intro unread
    have lexical : readInterval token name = .error (.lexical token) := by rw [readInterval,unread]
    rw [lexical]
    rfl
  · intro bounded none
    obtain ⟨⟨left,right⟩,bounds⟩ := Option.ne_none_iff_exists'.mp bounded
    have said : literals name (front ++ [token]) = literals name front ++ [token] := by
      rw [literals,literalsFrom_append,named]
      simp [literalsFrom,kind,literals]
    cases result : readInterval token name with
    | error reason =>
      rw [readInterval_times name bounds] at result
      split at result
      · cases result
        exact ⟨_,rfl⟩
      · cases result
    | ok interval =>
      have sound := run_sound clauses (passes_measured stands passes) applied
      obtain ⟨empty,refused⟩ := interval_refused sound (readInterval_declared _ _ _ result) strict name token (by
        rintro ⟨x,before,here⟩
        have common := (front_timed stands read name x).mp before
        refine none ⟨x,common.1,fun other member => ?_⟩
        rw [said] at member
        rcases List.mem_append.mp member with old | new
        · exact common.2 other old
        · cases List.mem_singleton.mp new
          exact (readInterval_allows result x).mpr here)
      exact ⟨empty,by rw [ok_bind,refused]; rfl⟩

theorem parse_times (strict : Bool) (text : String) :
    (∀ net, (parse strict text).value = .ok net → ∀ (t : Nat) (name : String), net.transitions[t]? = some name →
      ∃ interval : Interval, net.time[t]? = some interval ∧
        (∀ x, interval.Admits x ↔ Common (literals name (tokens text)) x) ∧
        (interval = .unconstrained ↔ ∀ x, 0 ≤ x → Common (literals name (tokens text)) x) ∧
        ∀ strict' text' net', (parse strict' text').value = .ok net' →
          ∀ (t' : Nat) (name' : String), net'.transitions[t']? = some name' →
          ((literals name (tokens text)).map Token.text).Perm ((literals name' (tokens text')).map Token.text) →
          net'.time[t']? = some interval) ∧
      (∀ name k, (¬ ∃ x, Common ((literals name (tokens text)).take k) x) → ∀ net, (parse strict text).value ≠ .ok net) ∧
      ∀ front token rest net name, tokens text = front ++ token :: rest →
        (ofReading strict (readingFrom .top front)).value = .ok net → Heading.none.along front = .named name →
        token.kind = .interval →
        (bounds? token.text = none → (parse strict text).value = .error (.lexical token)) ∧
          (bounds? token.text ≠ none → (¬ ∃ x, Common (literals name (front ++ [token])) x) →
            ∃ empty, (parse strict text).value = .error (.interval token name (.empty empty))) := by
  refine ⟨fun net parsed t name known => ?_,fun name k none net parsed => ?_,?_⟩
  · have sound := (parse_sound strict text net parsed).1
    have stored := timeOf_stored sound name
    have admits := parse_timed parsed name
    refine ⟨net.timeOf name,timeOf_known sound known,admits,?_,?_⟩
    · rw [Interval.stored_admits stored]
      simp only [admits]
    · intro strict' text' net' parsed' t' name' known' same
      have sound' := (parse_sound strict' text' net' parsed').1
      -- Both are stored in the one form that their set of times has.
      have equal : net'.timeOf name' = net.timeOf name := by
        refine Interval.stored_unique (timeOf_stored sound' name') stored fun x => ?_
        rw [parse_timed parsed',admits]
        exact (common_same same).symm
      rw [timeOf_known sound' known',equal]
  · obtain ⟨x,admits⟩ := Interval.stored_times (timeOf_stored (parse_sound strict text net parsed).1 name)
    have common := (parse_timed parsed name x).mp admits
    exact none ⟨x,common.1,fun token member => common.2 token (List.mem_of_mem_take member)⟩
  · exact fun front token rest net name stands read named kind => interval_reached stands read named kind

-- Two literals in either order, an interval that excludes nothing, and two literals that
-- meet in a point which one of them leaves out.
theorem parse_times_meeting :
    (∃ net, (parse false "tr t [0,5] tr u [0,w[ tr t : a ]2,w[").value = .ok net ∧ net.transitions = #["t","u"] ∧
      net.time = #[⟨.opened 2,.closed 5⟩,.unconstrained] ∧
      (∀ x, (⟨.opened 2,.closed 5⟩ : Interval).Admits x ↔
        Common (literals "t" (tokens "tr t [0,5] tr u [0,w[ tr t : a ]2,w[")) x) ∧
      ∃ net', (parse true "tr t ]2,w[ tr t [0,5]").value = .ok net' ∧ net'.time[0]? = some ⟨.opened 2,.closed 5⟩) ∧
      ∃ empty, (parse false "tr t [0,5] tr t ]5,7] p -> ->").value =
        .error (.interval ⟨.interval,"] 5 7 ]",⟨1,17⟩⟩ "t" (.empty empty)) := by
  have accepted : (fun net => (net.transitions,net.time)) <$> (parse false "tr t [0,5] tr u [0,w[ tr t : a ]2,w[").value =
      .ok (#["t","u"],#[⟨.opened 2,.closed 5⟩,.unconstrained]) := by cbv
  have turned : Net.transitions <$> (parse true "tr t ]2,w[ tr t [0,5]").value = .ok #["t"] := by cbv
  obtain ⟨net,parsed,same⟩ := map_ok.mp accepted
  obtain ⟨net',parsed',same'⟩ := map_ok.mp turned
  obtain ⟨transitions,time⟩ := Prod.mk.inj same
  obtain ⟨interval,found,admits,_,other⟩ :=
    (parse_times false "tr t [0,5] tr u [0,w[ tr t : a ]2,w[").1 net parsed 0 "t" (by rw [transitions]; rfl)
  rw [time] at found
  cases found
  refine ⟨⟨net,parsed,transitions,time,admits,net',parsed',?_⟩,?_⟩
  · refine other true "tr t ]2,w[ tr t [0,5]" net' parsed' 0 "t" (by rw [same']; rfl) ?_
    have one : (literals "t" (tokens "tr t [0,5] tr u [0,w[ tr t : a ]2,w[")).map Token.text = ["[ 0 5 ]","] 2 w ["] := by cbv
    have two : (literals "t" (tokens "tr t ]2,w[ tr t [0,5]")).map Token.text = ["] 2 w [","[ 0 5 ]"] := by cbv
    rw [one,two]
    exact List.Perm.swap _ _ _
  · have start : Net.transitions <$> (ofReading false (readingFrom .top
        ((tokens "tr t [0,5] tr t ]5,7] p -> ->").take 5))).value = .ok #["t"] := by cbv
    obtain ⟨net,read,_⟩ := map_ok.mp start
    have first : bounds? "[ 0 5 ]" = some (.closed 0,.closed 5) := by cbv
    have second : bounds? "] 5 7 ]" = some (.opened 5,.closed 7) := by cbv
    refine ((parse_times false "tr t [0,5] tr t ]5,7] p -> ->").2.2 _ _ ((tokens "tr t [0,5] tr t ]5,7] p -> ->").drop 6)
      net "t" (by cbv) read (by cbv) rfl).2 (by rw [second]; simp) ?_
    have said : literals "t" ((tokens "tr t [0,5] tr t ]5,7] p -> ->").take 5 ++ [⟨.interval,"] 5 7 ]",⟨1,17⟩⟩]) =
      [⟨.interval,"[ 0 5 ]",⟨1,6⟩⟩,⟨.interval,"] 5 7 ]",⟨1,17⟩⟩] := by cbv
    rw [said]
    rintro ⟨x,_,all⟩
    obtain ⟨_,_,early,_,_,ends⟩ := all ⟨.interval,"[ 0 5 ]",⟨1,6⟩⟩ (by simp)
    obtain ⟨_,_,late,_,starts,_⟩ := all ⟨.interval,"] 5 7 ]",⟨1,17⟩⟩ (by simp)
    cases first.symm.trans early
    cases second.symm.trans late
    exact absurd ends (not_le.mpr starts)

end Net

end TimePetri
