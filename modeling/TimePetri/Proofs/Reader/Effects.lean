import TimePetri.Proofs.Net.Cells
import TimePetri.Proofs.Net.Names
import TimePetri.Proofs.Reader.Tokens

namespace TimePetri

open Script

def Script.Owner.placeNames : Owner → List String
  | .transition _ => []
  | .place name => [name]

def Script.Owner.transitionNames : Owner → List String
  | .transition name => [name]
  | .place _ => []

namespace Reader

variable {strict : Bool} {r next : Reader} {token : Token} {owner : Owner} {number other row place : Nat}
  {rows : Array Marking} {weight change : Int64} {use : Use} {name text : String} {net : Net} {clause : Clause} {mode : Mode}
  {goal : Except ParseError Net} {total : Nat}

@[simp] theorem accept_ok (r : Reader) (a : α) : r.accept (.ok a) = .ok a := rfl

@[simp] theorem trusted_ok (a : α) : trusted (.ok a) = .ok a := rfl

structure Faithful (r : Reader) : Prop where
  sound : r.net.Sound
  places : ∀ name, r.placeNumbers.lookup name = r.net.placeIndex? name
  transitions : ∀ name, r.transitionNumbers.lookup name = r.net.transitionIndex? name

theorem Faithful.kept (faithful : r.Faithful) (kept : Kept r next) : next.Faithful := by
  obtain ⟨net,placeNumbers,transitionNumbers⟩ := kept
  exact ⟨net ▸ faithful.sound,fun name => net ▸ placeNumbers ▸ faithful.places name,
    fun name => net ▸ transitionNumbers ▸ faithful.transitions name⟩

theorem lookup_push {numbers : List (String × Nat)} {names : Array String} (same : ∀ other, numbers.lookup other = names.idxOf? other)
    (fresh : name ∉ names) (other : String) : ((name,names.size) :: numbers).lookup other = (names.push name).idxOf? other := by
  rw [number_push,List.lookup_cons,same]
  by_cases here : other = name
  · subst here
    simp [Array.idxOf?_eq_none_iff.mpr fresh]
  · simp [beq_false_of_ne here,Ne.symm here]

theorem placeNumber_exact (faithful : r.Faithful) (name : String) :
    ∃ placeNumbers, r.placeNumber name = ((r.net.ensurePlace name).1,{ r with net := (r.net.ensurePlace name).2, placeNumbers }) ∧
      Faithful { r with net := (r.net.ensurePlace name).2, placeNumbers } := by
  unfold placeNumber
  rw [faithful.places]
  have sound := Net.ensurePlace_sound faithful.sound name
  rcases Net.ensurePlace_cases r.net name with ⟨place,found,known⟩ | ⟨fresh,added⟩
  · rw [Net.placeIndex?,found,known]
    exact ⟨_,rfl,faithful⟩
  · rw [Net.placeIndex?,Array.idxOf?_eq_none_iff.mpr fresh]
    rw [added] at sound ⊢
    exact ⟨_,rfl,sound,lookup_push faithful.places fresh,faithful.transitions⟩

theorem transitionNumber_exact (faithful : r.Faithful) (name : String) :
    ∃ transitionNumbers, r.transitionNumber name =
        ((r.net.ensureTransition name).1,{ r with net := (r.net.ensureTransition name).2, transitionNumbers }) ∧
      Faithful { r with net := (r.net.ensureTransition name).2, transitionNumbers } := by
  unfold transitionNumber
  rw [faithful.transitions]
  have sound := Net.ensureTransition_sound faithful.sound name
  rcases Net.ensureTransition_cases r.net name with ⟨transition,found,known⟩ | ⟨fresh,added⟩
  · rw [Net.transitionIndex?,found,known]
    exact ⟨_,rfl,faithful⟩
  · rw [Net.transitionIndex?,Array.idxOf?_eq_none_iff.mpr fresh]
    rw [added] at sound ⊢
    exact ⟨_,rfl,sound,faithful.places,lookup_push faithful.transitions fresh⟩

def ensure (owner : Owner) (net : Net) : Nat × Net :=
  match owner with
  | .transition name => net.ensureTransition name
  | .place name => net.ensurePlace name

theorem number_ensured (faithful : r.Faithful) (owner : Owner) :
    ∃ placeNumbers transitionNumbers, r.number owner =
        ((ensure owner r.net).1,{ r with net := (ensure owner r.net).2, placeNumbers, transitionNumbers }) ∧
      Faithful { r with net := (ensure owner r.net).2, placeNumbers, transitionNumbers } := by
  cases owner with
  | transition name =>
    obtain ⟨transitionNumbers,same,further⟩ := transitionNumber_exact faithful name
    exact ⟨_,transitionNumbers,same,further⟩
  | place name =>
    obtain ⟨placeNumbers,same,further⟩ := placeNumber_exact faithful name
    exact ⟨placeNumbers,_,same,further⟩

def Knows (owner : Owner) (number : Nat) (net : Net) : Prop :=
  match owner with
  | .transition name => net.transitions[number]? = some name
  | .place name => net.places[number]? = some name

def carry (r : Reader) (result : Except ParseError Net) : Except Halt Reader := do
  return { r with net := ← r.accept result }

theorem store_inside (table : Array α) (index : Nat) (value : α) (inside : index < table.size) :
    store table index value = .ok (table.setIfInBounds index value) := if_pos inside

theorem label_exact (strict : Bool) (sound : r.net.Sound) (knows : Knows owner number r.net) (text : String) :
    r.label owner number text = r.carry (r.net.apply strict (labelClause owner text)) := by
  cases owner with
  | transition name =>
    have inside : number < r.net.transitions.size := (Array.getElem?_eq_some_iff.mp knows).1
    unfold label
    dsimp only
    rw [store_inside _ _ _ (sound.tabled.transitionLabels ▸ inside)]
    unfold labelClause Net.apply
    dsimp only
    rw [Net.ensureTransition_known sound.transitionNames knows]
    rfl
  | place name =>
    have inside : number < r.net.places.size := (Array.getElem?_eq_some_iff.mp knows).1
    unfold label
    dsimp only
    rw [store_inside _ _ _ (sound.placeLabels ▸ inside)]
    unfold labelClause Net.apply
    dsimp only
    rw [Net.ensurePlace_known sound.placeNames knows]
    rfl

theorem addTested_exact (r : Reader) (token : Token) (m : Marking) (place : Nat) (change : Int64) :
    r.addTested token m place change = r.accept ((m.addAt place change).mapError (Net.overflowAt token)) := by
  unfold addTested Marking.addAt addWords checked
  cases word? ((m.get place).toInt + change.toInt) <;> rfl

theorem addInRow_exact (r : Reader) (token : Token) (inside : row < rows.size) (place : Nat) (change : Int64) :
    r.addInRow token rows row place change = r.accept ((Net.addTo rows row place change).mapError (Net.overflowAt token)) := by
  unfold addInRow Net.addTo
  rw [fetch_inside _ _ inside,trusted_ok,ok_bind,ok_bind,addTested_exact]
  cases rows[row].addAt place change <;> rfl

def measureOf (owner : Owner) (token : Token) : Except ParseError Clause :=
  match owner with
  | .transition name => do return .interval name (← readInterval token name) token
  | .place name => do return .marking name (← readWeight token) token

theorem measure_exact (strict : Bool) (sound : r.net.Sound) (knows : Knows owner number r.net) (token : Token) :
    r.measure owner number token = r.accept (measureOf owner token) >>= fun clause => r.carry (r.net.apply strict clause) := by
  unfold measure measureOf
  cases owner with
  | transition name =>
    dsimp only
    cases readInterval token name with
    | error reason => rfl
    | ok declared =>
      have inside : number < r.net.transitions.size := (Array.getElem?_eq_some_iff.mp knows).1
      have inTimes : number < r.net.time.size := sound.tabled.time ▸ inside
      simp only [accept_ok,ok_bind,pure_ok,Net.apply,Net.ensureTransition_known sound.transitionNames knows,Net.narrow,
        fetch_inside _ _ inTimes,trusted_ok,ok_mapError]
      cases r.net.time[number].intersection declared <;> rfl
  | place name =>
    dsimp only
    cases readWeight token with
    | error reason => rfl
    | ok count =>
      simp only [accept_ok,ok_bind,pure_ok,Net.apply,Net.ensurePlace_known sound.placeNames knows,addTested_exact]
      cases r.net.initial.addAt number count <;> rfl

-- A weight that was read is not negative, so that it can be turned around.
theorem connect_exact (tabled : r.net.Tabled) (inside : row < r.net.transitions.size) (nonneg : 0 ≤ weight.toInt)
    (place : Nat) (use : Use) (token : Token) :
    r.connect row place use weight token = r.carry ((r.net.connect row place use weight).mapError (Net.overflowAt token)) := by
  have inGuard : row < r.net.guard.size := tabled.guard ▸ inside
  have inCap : row < r.net.cap.size := tabled.cap ▸ inside
  have inPre : row < r.net.pre.size := tabled.pre ▸ inside
  have inDelta : row < r.net.delta.size := tabled.delta ▸ inside
  unfold connect Net.connect
  cases use with
  | consume =>
    have range := word_range weight
    obtain ⟨taken,negated,_⟩ := checked_fits .neg (-weight.toInt) (by omega) (by unfold wordLimit; omega)
    have turned : negWord weight = .ok taken := negated
    simp only [turned,trusted_ok,ok_bind,addInRow_exact r token inDelta,addInRow_exact r token inPre,
      addInRow_exact r token inGuard]
    cases Net.addTo r.net.delta row place taken with
    | error fault => rfl
    | ok delta =>
      cases Net.addTo r.net.pre row place taken with
      | error fault => rfl
      | ok pre => cases Net.addTo r.net.guard row place weight <;> rfl
  | produce =>
    simp only [addInRow_exact r token inDelta]
    cases Net.addTo r.net.delta row place weight <;> rfl
  | test =>
    simp only [Net.updateIn,fetch_inside _ _ inGuard]
    rfl
  | inhibit =>
    simp only [Net.updateIn,fetch_inside _ _ inCap]
    rfl

theorem connectEnds_exact (strict : Bool) (sound : net.Sound) (knows : Knows owner number net) (same : r.net = (ensure (owner.other name) net).2)
    (faithful : r.Faithful) (nonneg : 0 ≤ weight.toInt) (use : Use) (token : Token) :
    r.connectEnds owner number (ensure (owner.other name) net).1 use weight token =
      r.carry (net.apply strict (arcOf owner name use weight token)) := by
  cases owner with
  | transition transition =>
    have kept : r.net.transitions = net.transitions := by rw [same]; exact (Net.ensurePlace_names net name).2
    have known : r.net.transitions[number]? = some transition := kept ▸ knows
    have again := Net.ensureTransition_known faithful.sound.transitionNames known
    have inside : number < r.net.transitions.size := (Array.getElem?_eq_some_iff.mp known).1
    unfold arcOf
    dsimp only
    change r.net = (net.ensurePlace name).2 at same
    rw [Net.apply_arc,← same,again]
    exact connect_exact faithful.sound.tabled inside nonneg _ _ _
  | place place =>
    have again := Net.ensurePlace_known sound.placeNames knows
    have inside : (net.ensureTransition name).1 < r.net.transitions.size := by
      rw [same]
      exact Net.ensureTransition_inside net name
    unfold arcOf
    dsimp only
    change r.net = (net.ensureTransition name).2 at same
    rw [Net.apply_arc,again,← same]
    exact connect_exact faithful.sound.tabled inside nonneg _ _ _

theorem Knows.named (knows : Knows owner number net) : Net.Named net net owner.placeNames owner.transitionNames := by
  cases owner with
  | transition name =>
    refine ⟨rfl,(addNames_known _ _ fun other member => ?_).symm⟩
    cases List.mem_singleton.mp member
    exact Array.mem_toList_iff.mpr (Array.mem_of_getElem? knows)
  | place name =>
    refine ⟨(addNames_known _ _ fun other member => ?_).symm,rfl⟩
    cases List.mem_singleton.mp member
    exact Array.mem_toList_iff.mpr (Array.mem_of_getElem? knows)

theorem Knows.label (knows : Knows owner number net) (text : String) :
    Net.Named net net (labelClause owner text).placeNames (labelClause owner text).transitionNames := by
  cases owner <;> exact knows.named

theorem Knows.measure (knows : Knows owner number net) (read : measureOf owner token = .ok clause) :
    clause.Measured ∧ Net.Named net net clause.placeNames clause.transitionNames := by
  cases owner with
  | transition name =>
    obtain ⟨interval,interval_read,same⟩ := bind_ok.mp read
    cases same
    exact ⟨readInterval_declared _ _ _ interval_read,knows.named⟩
  | place name =>
    obtain ⟨count,count_read,same⟩ := bind_ok.mp read
    cases same
    exact ⟨readWeight_nonneg count_read,knows.named⟩

theorem Knows.arc (knows : Knows owner number net) (name : String) (use : Use) (weight : Int64) (token : Token) :
    Net.Named net (ensure (owner.other name) net).2 (arcOf owner name use weight token).placeNames
      (arcOf owner name use weight token).transitionNames := by
  cases owner with
  | transition transition =>
    have kept : (net.ensurePlace name).2.transitions = net.transitions := (Net.ensurePlace_names net name).2
    have known : Knows (.transition transition) number (net.ensurePlace name).2 := by
      unfold Knows
      rw [kept]
      exact knows
    exact (Net.place_named net name).then known.named
  | place place => exact knows.named.then (Net.transition_named net name)

-- The reading of a text stands between two of its tokens, and all that is still to come
-- leads to what the whole text gives.
structure Stands (strict : Bool) (goal : Except ParseError Net) (total : Nat) (mode : Mode) (r : Reader) : Prop where
  placed : r.Placed total
  faithful : r.Faithful
  reads : goal = run strict r.net mode r.coming

theorem Placed.scanned (placed : r.Placed total) : r.scanned ≤ total + 1 := by
  unfold Placed at placed
  split at placed <;> omega

theorem carry_ends (placed : r.Placed total) (faithful : r.Faithful) (sound : net.Sound) (measured : clause.Measured)
    (named : Net.Named net r.net clause.placeNames clause.transitionNames)
    (reads : goal = net.apply strict clause >>= fun last => run strict last mode r.coming) :
    Ends (Failed goal total) (fun last => Stands strict goal total mode last ∧ last.net.places = r.net.places ∧
      last.net.transitions = r.net.transitions) (r.carry (net.apply strict clause)) := by
  cases applied : net.apply strict clause with
  | error reason =>
    rw [applied] at reads
    exact ⟨reads,placed.scanned⟩
  | ok last =>
    rw [applied] at reads
    have after := Net.apply_named sound applied
    have places : last.places = r.net.places := Array.toList_inj.mp (after.places.trans named.places.symm)
    have transitions : last.transitions = r.net.transitions :=
      Array.toList_inj.mp (after.transitions.trans named.transitions.symm)
    refine ⟨⟨placed,⟨Net.apply_sound sound strict clause measured applied,fun name => ?_,fun name => ?_⟩,reads⟩,places,
      transitions⟩
    · exact (faithful.places name).trans (congrArg (Array.idxOf? · name) places.symm)
    · exact (faithful.transitions name).trans (congrArg (Array.idxOf? · name) transitions.symm)

end Reader

end TimePetri
