import TimePetri.Proofs.Reader.Effects

namespace TimePetri.Reader

open Script

variable {strict : Bool} {r next : Reader} {token : Token} {net : Net} {mode : Mode} {goal : Except ParseError Net}
  {total : Nat} {names later : List String} {numbers first second : List Nat} {order : Order}

-- The numbers of names that are known, as far as a priority has been read.
structure Listed (net : Net) (names : List String) (numbers : List Nat) : Prop where
  known : ∀ name ∈ names, name ∈ net.transitions
  numbers : numbers = net.numberAll names

theorem Listed.none (net : Net) : Listed net [] [] := ⟨nofun,rfl⟩

theorem Listed.empty (listed : Listed net names numbers) : numbers = [] ↔ names = [] := by
  cases names with
  | nil => simp [listed.numbers,Net.numberAll]
  | cons name rest =>
    have known := listed.known name (by simp)
    cases found : net.transitions.idxOf? name with
    | none => exact absurd known (Array.idxOf?_eq_none_iff.mp found)
    | some number =>
      have member : number ∈ numbers := listed.numbers ▸ (Net.numberAll_member net _ _).mpr ⟨name,by simp,found⟩
      simp [List.ne_nil_of_mem member]

theorem Listed.kept (listed : Listed net names numbers) (other : String) :
    Listed (net.ensureTransition other).2 names numbers := by
  rcases Net.ensureTransition_cases net other with ⟨_,_,known⟩ | ⟨_,added⟩
  · rw [known]
    exact listed
  · rw [added]
    refine ⟨fun name member => Array.mem_push_of_mem _ (listed.known name member),listed.numbers.trans ?_⟩
    refine List.foldl_ext _ _ _ fun numbers name member => ?_
    change _ = ((net.transitions.push other).idxOf? name).elim numbers (Priority.insert numbers)
    rw [number_push,Net.transitionIndex?]
    cases found : net.transitions.idxOf? name with
    | none => exact absurd (listed.known name member) (Array.idxOf?_eq_none_iff.mp found)
    | some number => rfl

theorem Listed.mention (listed : Listed net names numbers) (sound : net.Sound) (name : String) :
    Listed (net.ensureTransition name).2 (names ++ [name]) (Priority.insert numbers (net.ensureTransition name).1) := by
  have before := listed.kept name
  have stands := Net.ensureTransition_number net name
  refine ⟨fun other member => ?_,?_⟩
  · rcases List.mem_append.mp member with old | new
    · exact before.known other old
    · cases List.mem_singleton.mp new
      exact Array.mem_of_getElem? stands
  · have found := (number_exact _ (Net.ensureTransition_sound sound name).transitionNames _ _).mpr stands
    unfold Net.numberAll
    rw [List.foldl_append,List.foldl_cons,Net.transitionIndex?,found,← Net.numberAll,← before.numbers]
    rfl

theorem priorityNumber_ends (took : Took total r token next) (faithful : r.Faithful) (more : token.kind ≠ .eof)
    (reads : goal = r.net.apply strict (.mention token) >>= fun last => run strict last mode (next.ahead token)) :
    Ends (Failed goal total) (fun (number,last) => Stands strict goal total mode last ∧
      (number,last.net) = r.net.ensureTransition token.text) (next.priorityNumber strict token) := by
  have there := faithful.kept took.kept
  rw [took.ahead more,← took.kept.net] at reads
  rw [← took.kept.net]
  unfold priorityNumber
  rw [there.transitions]
  unfold Net.apply at reads
  dsimp only at reads
  split
  · next unknown =>
    rw [if_pos unknown] at reads
    exact refuse_ends reads took.scanned
  · next known =>
    rw [if_neg known] at reads
    obtain ⟨numbers,same,further⟩ := transitionNumber_exact there token.text
    rw [same]
    exact ⟨⟨took.placed more,further,reads⟩,rfl⟩

def Upper (strict : Bool) (goal : Except ParseError Net) (total : Nat) (first : List Nat) (r : Reader) : Prop :=
  ∃ names, Stands strict goal total (.upper names) r ∧ Listed r.net names first

def Lower (strict : Bool) (goal : Except ParseError Net) (total : Nat) (first : List Nat) (order : Order) (second : List Nat)
    (r : Reader) : Prop :=
  ∃ names later, Stands strict goal total (.lower names order later) r ∧ Listed r.net names first ∧ Listed r.net later second

def Ranking (strict : Bool) (goal : Except ParseError Net) (total : Nat) (first : List Nat) (order : Order)
    (second : List Nat) (r : Reader) : Prop :=
  r.Placed total ∧ r.Faithful ∧ ∃ names later, Listed r.net names first ∧ Listed r.net later second ∧
    goal = r.net.apply strict (.priority names order later) >>= fun further => run strict further .top r.coming

theorem upperPart_ends (upper : Upper strict goal total first r) :
    Ends (Failed goal total)
      (Turn.Keeps (Upper strict goal total) fun (first,order) => Lower strict goal total first order [])
      (upperPart strict first r) := by
  obtain ⟨names,stands,listed⟩ := upper
  have faithful := stands.faithful
  refine Ends.bind (scan_ends stands.placed stands.reads) ?_
  intro answer took
  obtain ⟨token,next⟩ := answer
  have reads := stands.reads
  rw [took.coming] at reads
  have taken : step (.upper names) token = stepUpper names token := by
    unfold Script.step
    rw [if_neg took.legal]
  unfold stepUpper at taken
  have operator : ∀ order, token.kind ≠ .eof → step (.upper names) token = stepUpper.operator names token order →
      Ends (Failed goal total)
        (Turn.Keeps (Upper strict goal total) fun (first,order) => Lower strict goal total first order [])
        (upperPart.operator first token next order) := by
    intro order more taken
    unfold stepUpper.operator at taken
    unfold upperPart.operator
    split
    · next empty =>
      rw [if_pos (listed.empty.mp empty)] at taken
      exact refuse_ends (reads.trans (run_stops taken)) took.scanned
    · next full =>
      rw [if_neg (mt listed.empty.mpr full)] at taken
      rw [took.ahead more,← took.kept.net] at reads
      exact ⟨names,[],⟨took.placed more,faithful.kept took.kept,reads.trans (run_moves taken)⟩,took.kept.net ▸ listed,.none _⟩
  dsimp only
  split
  · next kind =>
    rw [kind] at taken
    have more : token.kind ≠ .eof := by simp [kind]
    refine Ends.bind (priorityNumber_ends took faithful more (reads.trans (run_emits taken))) ?_
    intro answer after
    obtain ⟨number,last⟩ := answer
    obtain ⟨further,same⟩ := after
    have mentioned := listed.mention faithful.sound token.text
    rw [← same] at mentioned
    exact ⟨_,further,mentioned⟩
  · next kind =>
    rw [kind] at taken
    exact operator .above (by simp [kind]) taken
  · next kind =>
    rw [kind] at taken
    exact operator .below (by simp [kind]) taken
  · next notName notAbove notBelow =>
    split at taken
    · next kind => exact absurd kind notName
    · next kind => exact absurd kind notAbove
    · next kind => exact absurd kind notBelow
    · exact refuse_ends (reads.trans (run_stops taken)) took.scanned

theorem lowerPart_ends (lower : Lower strict goal total first order second r) :
    Ends (Failed goal total) (Turn.Keeps (Lower strict goal total first order) (Ranking strict goal total first order))
      (lowerPart strict second r) := by
  obtain ⟨names,later,stands,upper,listed⟩ := lower
  have faithful := stands.faithful
  refine Ends.bind (scan_ends stands.placed stands.reads) ?_
  intro answer took
  obtain ⟨token,next⟩ := answer
  have reads := stands.reads
  rw [took.coming] at reads
  have taken : step (.lower names order later) token = stepLower names order later token := by
    unfold Script.step
    rw [if_neg took.legal]
  unfold stepLower at taken
  dsimp only
  split
  · next kind =>
    rw [if_pos kind] at taken
    have more : token.kind ≠ .eof := by simp [kind]
    refine Ends.bind (priorityNumber_ends took faithful more (reads.trans (run_emits taken))) ?_
    intro answer after
    obtain ⟨number,last⟩ := answer
    obtain ⟨further,same⟩ := after
    have mentioned := listed.mention faithful.sound token.text
    have before := upper.kept token.text
    rw [← same] at mentioned before
    exact ⟨_,_,further,before,mentioned⟩
  · next other =>
    rw [if_neg other] at taken
    split
    · next empty =>
      rw [if_pos (listed.empty.mp empty)] at taken
      exact refuse_ends (reads.trans (run_stops taken)) took.scanned
    · next full =>
      rw [if_neg (mt listed.empty.mpr full),← step_top took.legal] at taken
      refine Ends.bind (unscan_ends took) fun last again => ?_
      obtain ⟨placed,coming,kept⟩ := again
      rw [← kept.net] at upper listed
      refine ⟨placed,faithful.kept kept,names,later,upper,listed,?_⟩
      rw [coming,took.coming,kept.net]
      exact reads.trans (run_after taken)

theorem raised_exact (prio : Relation) (t : Nat) (inside : t < prio.size) (lower : List Nat) :
    prioritize.raised lower prio t = .ok (prio.modify t (Priority.union · lower)) := by
  unfold prioritize.raised
  rw [fetch_inside _ _ inside,ok_bind,store_inside _ _ _ inside]
  refine congrArg Except.ok (Array.ext (by simp) fun i before after => ?_)
  rw [Array.getElem_setIfInBounds,Array.getElem_modify]
  split
  · next same => subst same; rfl
  · rfl

theorem raisedAll_exact (prio : Relation) (upper lower : List Nat) (inTable : ∀ t ∈ upper, t < prio.size) :
    upper.foldlM (prioritize.raised lower) prio = .ok (upper.foldl (fun prio t => prio.modify t (Priority.union · lower)) prio) := by
  induction upper generalizing prio with
  | nil => rfl
  | cons t rest ih =>
    rw [List.foldlM_cons,raised_exact _ _ (inTable t (by simp)),ok_bind,List.foldl_cons]
    refine ih _ fun u member => ?_
    rw [Array.size_modify]
    exact inTable u (List.mem_cons_of_mem _ member)

theorem prioritize_exact (tabled : r.net.Tabled) (upper lower : List Nat) (inside : ∀ t ∈ upper, t < r.net.transitions.size) :
    r.prioritize upper lower = r.carry (.ok (r.net.prioritize upper lower)) := by
  unfold prioritize
  rw [raisedAll_exact _ _ _ fun t member => tabled.prio ▸ inside t member]
  rfl

theorem rank_ends (ranking : Ranking strict goal total first order second r) :
    Ends (Failed goal total) (Stands strict goal total .top) (r.rank first order second) := by
  obtain ⟨placed,faithful,names,later,upper,lower,reads⟩ := ranking
  have carried : r.rank first order second = r.carry (r.net.apply strict (.priority names order later)) := by
    rw [upper.numbers,lower.numbers]
    cases order with
    | above => exact prioritize_exact faithful.sound.tabled _ _ (Net.numberAll_inside _ _)
    | below => exact prioritize_exact faithful.sound.tabled _ _ (Net.numberAll_inside _ _)
  have measured : (Clause.priority names order later).Measured := trivial
  rw [carried]
  exact (carry_ends placed faithful faithful.sound measured ⟨rfl,rfl⟩ reads).mono fun last after => after.1

theorem priority_ends (stands : Stands strict goal total (.upper []) r) :
    Ends (Failed goal total) (Stands strict goal total .top) (r.priority strict) := by
  refine Ends.bind (iterate_ends (upperPart_lighter strict) (Upper strict goal total)
    (fun (first,order) => Lower strict goal total first order []) (fun _ _ => upperPart_ends) [] r ⟨[],stands,.none _⟩) ?_
  intro answer lower
  obtain ⟨⟨first,order⟩,middle⟩ := answer
  refine Ends.bind (iterate_ends (lowerPart_lighter strict) (Lower strict goal total first order)
    (Ranking strict goal total first order) (fun _ _ => lowerPart_ends) [] middle lower) ?_
  intro answer ranking
  obtain ⟨second,last⟩ := answer
  exact rank_ends ranking

end TimePetri.Reader
