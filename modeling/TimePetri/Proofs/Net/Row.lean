import TimePetri.Proofs.Marking.Counts
import TimePetri.Script.Parse

namespace TimePetri

open Script

structure Row where
  guard : Marking
  cap : Marking
  pre : Marking
  delta : Marking

namespace Row

def empty : Row := ⟨.empty,.empty,.empty,.empty⟩

def connect (row : Row) (place : Nat) (use : Use) (weight : Int64) : Except Fault Row :=
  match use with
  | .consume => do
    let taken ← negWord weight
    let delta ← row.delta.addAt place taken
    let pre ← row.pre.addAt place taken
    let guard ← row.guard.addAt place weight
    return { row with delta, pre, guard }
  | .produce => do return { row with delta := ← row.delta.addAt place weight }
  | .test => .ok { row with guard := row.guard.raise place weight }
  | .inhibit => .ok { row with cap := row.cap.lower place weight }

variable {row next : Row} {places place larger : Nat} {weight : Int64} {use : Use}

-- All that is taken is guarded, and what is taken is part of the change.
structure Sound (places : Nat) (row : Row) : Prop where
  guardWithin : row.guard.Within places
  capWithin : row.cap.Within places
  preWithin : row.pre.Within places
  deltaWithin : row.delta.Within places
  cap : ∀ p, 0 ≤ row.cap.count p
  pre : ∀ p, row.pre.count p ≤ 0
  guarded : ∀ p, -row.pre.count p ≤ row.guard.count p
  produced : ∀ p, row.pre.count p ≤ row.delta.count p

theorem Sound.guard (sound : Sound places row) (p : Nat) : 0 ≤ row.guard.count p := by
  have taken := sound.pre p
  have guarded := sound.guarded p
  omega

theorem empty_sound (places : Nat) : Sound places empty := by
  constructor
  case guardWithin => exact Marking.within_empty _
  case capWithin => exact Marking.within_empty _
  case preWithin => exact Marking.within_empty _
  case deltaWithin => exact Marking.within_empty _
  all_goals intro p; simp [empty]

theorem Sound.more (sound : Sound places row) (more : places ≤ larger) : Sound larger row :=
  ⟨Marking.within_more more sound.guardWithin,Marking.within_more more sound.capWithin,
    Marking.within_more more sound.preWithin,Marking.within_more more sound.deltaWithin,
    sound.cap,sound.pre,sound.guarded,sound.produced⟩

theorem consume_parts (connected : row.connect place .consume weight = .ok next) :
    ∃ taken delta pre guard, negWord weight = .ok taken ∧ row.delta.addAt place taken = .ok delta ∧
      row.pre.addAt place taken = .ok pre ∧ row.guard.addAt place weight = .ok guard ∧
      next = ⟨guard,row.cap,pre,delta⟩ := by
  obtain ⟨taken,negated,rest⟩ := bind_ok.mp connected
  obtain ⟨delta,changed,rest⟩ := bind_ok.mp rest
  obtain ⟨pre,preChanged,rest⟩ := bind_ok.mp rest
  obtain ⟨guard,guardChanged,rest⟩ := bind_ok.mp rest
  cases rest
  exact ⟨taken,delta,pre,guard,negated,changed,preChanged,guardChanged,rfl⟩

theorem produce_parts (connected : row.connect place .produce weight = .ok next) :
    ∃ delta, row.delta.addAt place weight = .ok delta ∧ next = { row with delta } := by
  obtain ⟨delta,changed,rest⟩ := bind_ok.mp connected
  cases rest
  exact ⟨delta,changed,rfl⟩

theorem connect_sound (sound : Sound places row) (inside : place < places) (nonneg : 0 ≤ weight.toInt)
    (connected : row.connect place use weight = .ok next) : Sound places next := by
  cases use with
  | consume =>
    obtain ⟨taken,delta,pre,guard,negated,changed,preChanged,guardChanged,rfl⟩ := consume_parts connected
    have amount := (negWord_ok _ _).mp negated
    have deltaCount := Marking.addAt_count changed
    have preCount := Marking.addAt_count preChanged
    have guardCount := Marking.addAt_count guardChanged
    constructor
    case guardWithin => exact Marking.within_change sound.guardWithin inside fun q other => by simp [guardCount,other]
    case capWithin => exact sound.capWithin
    case preWithin => exact Marking.within_change sound.preWithin inside fun q other => by simp [preCount,other]
    case deltaWithin => exact Marking.within_change sound.deltaWithin inside fun q other => by simp [deltaCount,other]
    case cap => exact sound.cap
    case pre =>
      intro p
      have old := sound.pre p
      rw [preCount]
      split <;> omega
    case guarded =>
      intro p
      have old := sound.guarded p
      rw [preCount,guardCount]
      split <;> omega
    case produced =>
      intro p
      have old := sound.produced p
      rw [preCount,deltaCount]
      split <;> omega
  | produce =>
    obtain ⟨delta,changed,rfl⟩ := produce_parts connected
    have deltaCount := Marking.addAt_count changed
    refine { sound with deltaWithin := ?_, produced := ?_ }
    · exact Marking.within_change sound.deltaWithin inside fun q other => by simp [deltaCount,other]
    · intro p
      have old := sound.produced p
      change row.pre.count p ≤ delta.count p
      rw [deltaCount]
      split <;> omega
  | test =>
    cases connected
    have raised := fun q => Marking.raise_count row.guard place weight q nonneg (sound.guard place)
    refine { sound with guardWithin := ?_, guarded := ?_ }
    · exact Marking.within_change sound.guardWithin inside fun q other => by simp [raised,other]
    · intro p
      have old := sound.guarded p
      change -row.pre.count p ≤ (row.guard.raise place weight).count p
      rw [raised]
      split
      · next here => subst here; omega
      · exact old
  | inhibit =>
    cases connected
    have lowered := fun q => Marking.lower_count row.cap place weight q
    refine { sound with capWithin := ?_, cap := ?_ }
    · exact Marking.within_change sound.capWithin inside fun q other => by simp [lowered,other]
    · intro p
      have old := sound.cap p
      rw [lowered]
      split
      · next here =>
        obtain ⟨rfl,_⟩ := here
        split <;> omega
      · exact old

end Row

namespace Net

structure Tabled (net : Net) : Prop where
  transitionLabels : net.transitionLabels.size = net.transitions.size
  time : net.time.size = net.transitions.size
  guard : net.guard.size = net.transitions.size
  cap : net.cap.size = net.transitions.size
  pre : net.pre.size = net.transitions.size
  delta : net.delta.size = net.transitions.size
  prio : net.prio.size = net.transitions.size

def row (net : Net) (t : Nat) : Row :=
  ⟨net.guard[t]?.getD .empty,net.cap[t]?.getD .empty,net.pre[t]?.getD .empty,net.delta[t]?.getD .empty⟩

theorem row_outside (tabled : Tabled net) (outside : ¬ t < net.transitions.size) : net.row t = .empty := by
  have guard : net.guard.size ≤ t := by rw [tabled.guard]; omega
  have cap : net.cap.size ≤ t := by rw [tabled.cap]; omega
  have pre : net.pre.size ≤ t := by rw [tabled.pre]; omega
  have delta : net.delta.size ≤ t := by rw [tabled.delta]; omega
  simp [row,Row.empty,guard,cap,pre,delta]

def setRow (net : Net) (t : Nat) (row : Row) : Net :=
  { net with
    guard := net.guard.setIfInBounds t row.guard
    cap := net.cap.setIfInBounds t row.cap
    pre := net.pre.setIfInBounds t row.pre
    delta := net.delta.setIfInBounds t row.delta }

theorem set_same (rows : Array α) (t : Nat) (other : α) : rows.setIfInBounds t (rows[t]?.getD other) = rows := by
  refine Array.ext (by simp) fun i inside _ => ?_
  rw [Array.getElem_setIfInBounds]
  split
  · next same => subst same; simp [Array.getElem?_eq_getElem (by simpa using inside)]
  · rfl

theorem addTo_row (rows : Array Marking) (t place : Nat) (change : Int64) (inside : t < rows.size) :
    addTo rows t place change = (rows.setIfInBounds t ·) <$> (rows[t]?.getD .empty).addAt place change := by
  unfold addTo
  rw [fetch_inside _ _ inside,ok_bind,Array.getElem?_eq_getElem inside,Option.getD_some]
  cases rows[t].addAt place change <;> rfl

theorem updateIn_row (rows : Array Marking) (t : Nat) (change : Marking → Marking) (inside : t < rows.size) :
    updateIn rows t change = .ok (rows.setIfInBounds t (change (rows[t]?.getD .empty))) := by
  unfold updateIn
  rw [fetch_inside _ _ inside,ok_bind,Array.getElem?_eq_getElem inside,Option.getD_some]
  rfl

theorem connect_row (net : Net) (t place : Nat) (use : Use) (weight : Int64) (tabled : net.Tabled)
    (inside : t < net.transitions.size) :
    net.connect t place use weight = net.setRow t <$> (net.row t).connect place use weight := by
  have inGuard : t < net.guard.size := tabled.guard ▸ inside
  have inCap : t < net.cap.size := tabled.cap ▸ inside
  have inPre : t < net.pre.size := tabled.pre ▸ inside
  have inDelta : t < net.delta.size := tabled.delta ▸ inside
  cases use with
  | consume =>
    unfold connect Row.connect
    dsimp only
    cases negWord weight with
    | error fault => rfl
    | ok taken =>
      simp only [ok_bind,addTo_row _ _ _ _ inDelta,addTo_row _ _ _ _ inPre,addTo_row _ _ _ _ inGuard,row]
      cases (net.delta[t]?.getD .empty).addAt place taken with
      | error fault => rfl
      | ok delta =>
        simp only [ok_map,ok_bind]
        cases (net.pre[t]?.getD .empty).addAt place taken with
        | error fault => rfl
        | ok pre =>
          simp only [ok_map,ok_bind]
          cases (net.guard[t]?.getD .empty).addAt place weight with
          | error fault => rfl
          | ok guard => simp [setRow,set_same]
  | produce =>
    unfold connect Row.connect
    simp only [addTo_row _ _ _ _ inDelta,row]
    cases (net.delta[t]?.getD .empty).addAt place weight with
    | error fault => rfl
    | ok delta => simp [setRow,set_same]
  | test =>
    unfold connect Row.connect
    simp only [updateIn_row _ _ _ inGuard,row]
    simp [setRow,set_same]
  | inhibit =>
    unfold connect Row.connect
    simp only [updateIn_row _ _ _ inCap,row]
    simp [setRow,set_same]

end Net

end TimePetri
