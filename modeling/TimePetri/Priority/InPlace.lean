import TimePetri.Priority
import TimePetri.Word

namespace TimePetri.Priority

-- The closure as it is carried out on one table. A list is replaced where it stands
-- while the same pass still reads others, and reading outside the table is a fault.
def gather (relation : Relation) (transition : Nat) : Except Fault (List Nat) := do
  let direct ← fetch relation transition
  direct.foldlM (fun reached lower => return union reached (← fetch relation lower)) direct

structure Sweep where
  relation : Relation
  final : List Nat
  left : List Nat

-- Being ready is decided by what was final before the pass. What a pass completes
-- counts as final only afterwards.
def sweepOne (final : List Nat) (sweep : Sweep) (transition : Nat) : Except Fault Sweep := do
  let direct ← fetch sweep.relation transition
  if direct.all (search · final) then
    let row ← gather sweep.relation transition
    return ⟨sweep.relation.setIfInBounds transition row,insert sweep.final transition,sweep.left⟩
  else return { sweep with left := sweep.left ++ [transition] }

def sweepAll (relation : Relation) (final work : List Nat) : Except Fault Sweep :=
  work.foldlM (sweepOne final) ⟨relation,final,[]⟩

def firstOwnLower (relation : Relation) : List Nat → Except Fault (Option Nat)
  | [] => .ok none
  | transition :: rest => do
    if search transition (← fetch relation transition) then return some transition
    else firstOwnLower relation rest

def diagnose (relation : Relation) (names : Array String) (work : List Nat) : Except Fault Flaw := do
  match ← firstOwnLower relation work with
  | some transition => return .ownLower (nameOf names transition)
  | none => return .cycle (work.map (nameOf names))

theorem sweepOne_left (final : List Nat) (sweep next : Sweep) (transition : Nat)
    (swept : sweepOne final sweep transition = .ok next) : next.left.length ≤ sweep.left.length + 1 := by
  unfold sweepOne at swept
  cases direct : fetch sweep.relation transition with
  | error fault => rw [direct] at swept; cases swept
  | ok row =>
    rw [direct] at swept
    dsimp only [bind,Except.bind] at swept
    split at swept
    · cases gathered : gather sweep.relation transition with
      | error fault => rw [gathered] at swept; cases swept
      | ok row => rw [gathered] at swept; cases swept; exact Nat.le_succ _
    · cases swept; simp

theorem sweepAll_left (final work : List Nat) (sweep next : Sweep)
    (swept : work.foldlM (sweepOne final) sweep = .ok next) :
    next.left.length ≤ sweep.left.length + work.length := by
  induction work generalizing sweep with
  | nil => cases swept; exact Nat.le_refl _
  | cons transition rest ih =>
    rw [List.foldlM_cons] at swept
    cases one : sweepOne final sweep transition with
    | error fault => rw [one] at swept; cases swept
    | ok middle =>
      rw [one] at swept
      have first := sweepOne_left _ _ _ _ one
      have later := ih middle swept
      rw [List.length_cons]
      omega

def closeInPlaceFrom (relation : Relation) (names : Array String) (final work : List Nat) (passes : Nat) :
    Except Fault Closure :=
  if work = [] then .ok ⟨relation,.ok passes⟩
  else
    match _ : sweepAll relation final work with
    | .error fault => .error fault
    | .ok sweep =>
      if sweep.left.length = work.length then do return ⟨sweep.relation,.error (← diagnose sweep.relation names work)⟩
      else closeInPlaceFrom sweep.relation names sweep.final sweep.left (passes + 1)
termination_by work.length
decreasing_by
  rename_i swept shorter
  have bound := sweepAll_left final work _ sweep swept
  simp only [List.length_nil,Nat.zero_add] at bound
  omega

def divide (relation : Relation) : List Nat → Except Fault (List Nat × List Nat)
  | [] => .ok ([],[])
  | transition :: rest => do
    let direct ← fetch relation transition
    let (bottom,above) ← divide relation rest
    return if direct.isEmpty then (transition :: bottom,above) else (bottom,transition :: above)

def closeInPlace (relation : Relation) (names : Array String) : Except Fault Closure := do
  let (final,work) ← divide relation (List.range relation.size)
  if work = [] then return ⟨relation,.ok 0⟩
  else if final = [] then return ⟨relation,.error .noMinimal⟩
  else closeInPlaceFrom relation names final work 0

end TimePetri.Priority
