import TimePetri.Interval.Bound

namespace TimePetri

-- The static firing interval of a transition. One that was never constrained has
-- no left value and reads as everything from zero on.
structure Interval where
  left : Bound
  right : Bound
  deriving DecidableEq

inductive IntervalError where
  | uninitialized
  | empty (interval : Interval)
  deriving DecidableEq

namespace Interval

def unconstrained : Interval := ⟨.infinite,.infinite⟩

def trivial : Interval := ⟨.closed 0,.infinite⟩

def isUninitialized (i : Interval) : Bool := i.left.isInfinite

def isTrivial (i : Interval) : Bool :=
  i.isUninitialized || (i.left = .closed 0 && i.right.isInfinite)

def isEmpty (i : Interval) : Bool :=
  match i.left.value?, i.right.value? with
  | some l, some r => r < l || (r = l && (i.left.isOpen || i.right.isOpen))
  | _, _ => false

def text (i : Interval) : String :=
  match i.left with
  | .infinite => "[0,w["
  | .closed v => "[" ++ decimal v ++ rightText i.right
  | .opened v => "]" ++ decimal v ++ rightText i.right
where
  rightText : Bound → String
    | .infinite => ",w["
    | .closed v => "," ++ decimal v ++ "]"
    | .opened v => "," ++ decimal v ++ "["

def inhabited (i : Interval) : Except IntervalError Interval :=
  if i.isEmpty then .error (.empty i) else .ok i

def make (left right : Bound) : Except IntervalError Interval :=
  if left.isInfinite then .error .uninitialized else inhabited ⟨left,right⟩

-- The larger of two left bounds excludes more, and so does the open one of two
-- with the same value.
def tighterLeft (current other : Bound) : Bound :=
  match current.value?, other.value? with
  | some l, some r => if l < r || (r = l && other.isOpen) then other else current
  | _, _ => current

def tighterRight (current other : Bound) : Bound :=
  match current.value?, other.value? with
  | _, none => current
  | none, some _ => other
  | some l, some r => if r < l || (r = l && other.isOpen) then other else current

-- An interval never constrained takes the other one over; the other one has to be
-- constrained.
def intersection (i other : Interval) : Except IntervalError Interval :=
  if other.isUninitialized then .error .uninitialized
  else if i.isUninitialized then inhabited other
  else inhabited ⟨tighterLeft i.left other.left,tighterRight i.right other.right⟩

def normalize (i : Interval) : Interval := if i.isTrivial then unconstrained else i

end Interval

def IntervalError.message : IntervalError → String
  | .uninitialized => "uninitialized time interval"
  | .empty interval => "empty time interval " ++ interval.text

end TimePetri
