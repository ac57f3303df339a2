import Mathlib
import TimePetri.Proofs.Net.Firing
import TimePetri.Proofs.Net.Names
import TimePetri.Proofs.Priority.InPlace

namespace TimePetri.Net

open Script Priority

def markings (net : Net) : List Marking :=
  net.guard.toList ++ net.cap.toList ++ net.pre.toList ++ net.delta.toList ++ [net.initial]

-- What later work on a net takes for granted.
structure WellFormed (net : Net) : Prop where
  placeLabels : net.placeLabels.size = net.places.size
  tabled : net.Tabled
  placeNames : net.places.toList.Nodup
  transitionNames : net.transitions.toList.Nodup
  inside : ∀ m ∈ net.markings, Canonical m.atoms ∧ ∀ a ∈ m.atoms, a.place < net.places.size
  positive : ∀ m ∈ net.guard.toList ++ net.cap.toList ++ [net.initial], ∀ a ∈ m.atoms, 0 < a.mult
  negative : ∀ m ∈ net.pre, ∀ a ∈ m.atoms, a.mult < 0
  guarded : ∀ (t : Nat) (guard pre : Marking), net.guard[t]? = some guard → net.pre[t]? = some pre →
    ∀ p, -pre.count p ≤ guard.count p
  prio : ∀ lower ∈ net.prio, lower.Pairwise (· < ·) ∧ ∀ u ∈ lower, u < net.transitions.size
  time : ∀ interval ∈ net.time, interval = .unconstrained ∨
    interval.isUninitialized = false ∧ interval.isEmpty = false ∧ interval.isTrivial = false ∧
      ∀ bound ∈ [interval.left,interval.right], ∀ v, bound.value? = some v → 0 ≤ v

variable {net : Net} {m : Marking} {size : Nat}

theorem table_row {rows : Array Marking} (member : m ∈ rows) : ∃ t : Nat, rows[t]?.getD .empty = m := by
  obtain ⟨t,inside,same⟩ := Array.mem_iff_getElem.mp member
  exact ⟨t,by simp [inside,same]⟩

theorem positive_atoms (nonneg : ∀ p, 0 ≤ m.count p) : ∀ a ∈ m.atoms, 0 < a.mult := by
  have positive : m.isNonnegative = true := m.nonnegative_exact.mpr nonneg
  simpa [Marking.isNonnegative] using positive

theorem within_atoms (within : m.Within size) : ∀ a ∈ m.atoms, a.place < size :=
  (m.atoms_all fun p _ => p < size).mpr within

theorem negative_atoms (nonpos : ∀ p, m.count p ≤ 0) : ∀ a ∈ m.atoms, a.mult < 0 := by
  intro a member
  have below : a.mult.toInt < 0 := by
    refine (m.atoms_all fun _ n => n < 0).mpr (fun p present => ?_) a member
    have low := nonpos p
    omega
  exact Int64.lt_iff_toInt_lt.mpr below

theorem markings_within (sound : net.Sound) : ∀ m ∈ net.markings, m.Within net.places.size := by
  intro m member
  simp only [markings,List.mem_append,Array.mem_toList_iff,List.mem_singleton] at member
  rcases member with (((guard | cap) | pre) | delta) | rfl
  · obtain ⟨t,rfl⟩ := table_row guard; exact (sound.rows t).guardWithin
  · obtain ⟨t,rfl⟩ := table_row cap; exact (sound.rows t).capWithin
  · obtain ⟨t,rfl⟩ := table_row pre; exact (sound.rows t).preWithin
  · obtain ⟨t,rfl⟩ := table_row delta; exact (sound.rows t).deltaWithin
  · exact sound.initialWithin

theorem positive_markings (sound : net.Sound) :
    ∀ m ∈ net.guard.toList ++ net.cap.toList ++ [net.initial], ∀ p, 0 ≤ m.count p := by
  intro m member
  simp only [List.mem_append,Array.mem_toList_iff,List.mem_singleton] at member
  rcases member with (guard | cap) | rfl
  · obtain ⟨t,rfl⟩ := table_row guard; exact (sound.rows t).guard
  · obtain ⟨t,rfl⟩ := table_row cap; exact (sound.rows t).cap
  · exact sound.initial

theorem stored_time {interval : Interval} (stored : interval.Stored) : interval = .unconstrained ∨
    interval.isUninitialized = false ∧ interval.isEmpty = false ∧ interval.isTrivial = false ∧
      ∀ bound ∈ [interval.left,interval.right], ∀ v, bound.value? = some v → 0 ≤ v := by
  rcases stored with default | ⟨declared,constrains⟩
  · exact .inl default
  · refine .inr ⟨declared.initialized,declared.inhabited,constrains,?_⟩
    obtain ⟨l,left,low⟩ := declared.left
    intro bound member v value
    rcases List.mem_cons.mp member with rfl | rest
    · cases left.symm.trans value
      exact Int64.le_iff_toInt_le.mpr low
    · cases List.mem_singleton.mp rest
      exact Int64.le_iff_toInt_le.mpr (declared.right v value)

theorem Sound.wellFormed (sound : net.Sound) : net.WellFormed := by
  constructor
  case placeLabels => exact sound.placeLabels
  case tabled => exact sound.tabled
  case placeNames => exact sound.placeNames
  case transitionNames => exact sound.transitionNames
  case inside => exact fun m member => ⟨m.canonical,within_atoms (markings_within sound m member)⟩
  case positive => exact fun m member => positive_atoms (positive_markings sound m member)
  case negative =>
    intro m member
    obtain ⟨t,rfl⟩ := table_row member
    exact negative_atoms (sound.rows t).pre
  case guarded =>
    intro t guard pre guardFound preFound p
    have guarded := (sound.rows t).guarded p
    simpa [row,guardFound,preFound] using guarded
  case prio =>
    intro lower member
    have inList := Array.mem_toList_iff.mpr member
    exact ⟨sound.ordered lower inList,fun u below => sound.tabled.prio ▸ sound.inTable lower inList u below⟩
  case time => exact fun interval member => stored_time (sound.times interval member)

theorem isEnabled_inside (tabled : net.Tabled) (m : Marking) {t : Nat} (inside : t < net.transitions.size) :
    ∃ holds, net.isEnabled m t = .ok holds := by
  have inGuard : t < net.guard.size := tabled.guard ▸ inside
  have inCap : t < net.cap.size := tabled.cap ▸ inside
  unfold isEnabled
  rw [fetch_inside _ _ inGuard,ok_bind]
  split
  · rw [fetch_inside _ _ inCap]
    exact ⟨_,rfl⟩
  · exact ⟨false,rfl⟩

theorem filterM_exact {test : Nat → Except Fault Bool} {holds : Nat → Bool} (xs : List Nat)
    (same : ∀ x ∈ xs, test x = .ok (holds x)) : xs.filterM test = .ok (xs.filter holds) := by
  have gathered : ∀ kept, xs.filterAuxM test kept = .ok ((xs.filter holds).reverse ++ kept) := by
    induction xs with
    | nil => intro kept; rfl
    | cons x rest ih =>
      intro kept
      rw [List.filterAuxM,same x (by simp),ok_bind,ih fun y member => same y (List.mem_cons_of_mem _ member)]
      cases chosen : holds x <;> simp [chosen]
  unfold List.filterM
  rw [gathered]
  simp

theorem enabled_exact (tabled : net.Tabled) (m : Marking) :
    ∃ ts, net.enabled m = .ok ts ∧ ∀ t, t ∈ ts ↔ t < net.transitions.size ∧ net.isEnabled m t = .ok true := by
  have decided : ∀ t < net.transitions.size, net.isEnabled m t = .ok ((net.isEnabled m t).toOption.getD false) := by
    intro t inside
    obtain ⟨holds,result⟩ := isEnabled_inside tabled m inside
    rw [result]
    rfl
  refine ⟨_,filterM_exact _ fun t member => decided t (List.mem_range.mp member),fun t => ?_⟩
  rw [List.mem_filter,List.mem_range]
  refine and_congr_right fun inside => ?_
  rw [decided t inside,Except.ok.injEq]
  rfl

theorem fire_inside (tabled : net.Tabled) (m : Marking) {t : Nat} (inside : t < net.transitions.size) :
    (∃ next, net.fire m t = .ok next) ∨ net.fire m t = .error (.overflow .add) := by
  rcases fire_exact tabled inside m with ⟨next,fired,_⟩ | ⟨failed,_⟩
  · exact .inl ⟨next,fired⟩
  · exact .inr failed

theorem markingText_names (net : Net) (m : Marking) (known : ∀ a ∈ m.atoms, a.place < net.places.size) :
    ∃ names : List String, names.map some = m.atoms.map (fun a => net.places[a.place]?) ∧
      net.markingText m = " ".intercalate (List.zipWith countedText names (m.atoms.map (·.mult))) := by
  refine ⟨m.atoms.map fun a => net.places[a.place]?.getD "?",?_,?_⟩
  · rw [List.map_map]
    exact List.map_congr_left fun a member => (default_found net.places "?" (known a member)).symm
  · rw [List.zipWith_map,List.zipWith_self]
    rfl

theorem parse_wellFormed (strict : Bool) (text : String) (net : Net) (parsed : (parse strict text).value = .ok net) :
    net.WellFormed ∧
      (∃ declarations, Spells declarations text ∧ (∀ others, Spells others text → others = declarations) ∧
        net.places.toList = (declarations.flatMap Declaration.placeNames).eraseDups ∧
        net.transitions.toList = (declarations.flatMap Declaration.transitionNames).eraseDups) ∧
      (∀ m t, t < net.transitions.size → (∃ holds, net.isEnabled m t = .ok holds) ∧
        ((∃ next, net.fire m t = .ok next) ∨ net.fire m t = .error (.overflow .add))) ∧
      (∀ m, ∃ ts, net.enabled m = .ok ts ∧ ∀ t, t ∈ ts ↔ t < net.transitions.size ∧ net.isEnabled m t = .ok true) ∧
      (∀ m : Marking, (∀ a ∈ m.atoms, a.place < net.places.size) →
        ∃ names : List String, names.map some = m.atoms.map (fun a => net.places[a.place]?) ∧
          net.markingText m = " ".intercalate (List.zipWith countedText names (m.atoms.map (·.mult)))) ∧
      closeInPlace net.prio net.transitions = .ok net.closePriorities.2 := by
  obtain ⟨declarations,declared⟩ := parse_declared parsed
  have sound := declared.sound
  obtain ⟨placeNames,transitionNames⟩ := declared_names declared
  refine ⟨sound.wellFormed,⟨declarations,declared.spells,fun others spells => spells_unique spells declared.spells,
    placeNames,transitionNames⟩,?_,enabled_exact sound.tabled,markingText_names net,closeInPlace_exact _ _ sound.ordered⟩
  exact fun m t inside => ⟨isEnabled_inside sound.tabled m inside,fire_inside sound.tabled m inside⟩

def constrained : Net :=
  ⟨"",#["p","q"],#["",""],#["t","u"],#["",""],#[⟨.closed 1,.closed 2⟩,⟨.opened 0,.infinite⟩],
    #[Marking.empty.set 0 1,.empty],#[Marking.empty.set 1 3,.empty],#[Marking.empty.set 0 (-1),.empty],
    #[Marking.empty.set 0 1,.empty],Marking.empty.set 0 2,#[[1],[]]⟩

theorem parse_wellFormed_constrained :
    (parse true "pl p (2) -> t\ntr t [1,2] q?-3 -> p*2\ntr u ]0,w[\npr t > u").value = .ok constrained ∧
      constrained.WellFormed ∧ closeInPlace constrained.prio constrained.transitions = .ok constrained.closePriorities.2 := by
  have parsed : (parse true "pl p (2) -> t\ntr t [1,2] q?-3 -> p*2\ntr u ]0,w[\npr t > u").value = .ok constrained := by cbv
  obtain ⟨wellFormed,_,_,_,_,closed⟩ := parse_wellFormed _ _ _ parsed
  exact ⟨parsed,wellFormed,closed⟩

end TimePetri.Net
