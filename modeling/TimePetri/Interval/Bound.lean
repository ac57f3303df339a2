import TimePetri.Word

namespace TimePetri

-- A bound without a value stands for infinity on the right of an interval, and on
-- the left for an interval that was never constrained.
inductive Bound where
  | infinite
  | closed (value : Int64)
  | opened (value : Int64)
  deriving DecidableEq

namespace Bound

def value? : Bound → Option Int64
  | infinite => none
  | closed v => some v
  | opened v => some v

def isInfinite (b : Bound) : Bool := b = infinite

def isOpen : Bound → Bool
  | opened _ => true
  | _ => false

-- Bounds of equal value are ordered open before closed. Anything is less than an
-- infinite bound, itself included.
def compare : Bound → Bound → Ordering
  | _, infinite => .lt
  | infinite, _ => .gt
  | closed a, closed b => valueOrder a b .eq
  | opened a, opened b => valueOrder a b .eq
  | opened a, closed b => valueOrder a b .lt
  | closed a, opened b => valueOrder a b .gt
where
  valueOrder (a b : Int64) (tie : Ordering) : Ordering :=
    if a < b then .lt else if b < a then .gt else tie

def max (a b : Bound) : Bound := if a.compare b = .gt then a else b

def min (a b : Bound) : Bound := if a.compare b = .gt then b else a

def isPositive : Bound → Bool
  | infinite => true
  | closed v => 0 ≤ v
  | opened v => 0 < v

def combine (operation : Int64 → Int64 → Except Fault Int64) : Bound → Bound → Except Fault Bound
  | infinite, _ => .ok infinite
  | _, infinite => .ok infinite
  | closed a, closed b => closed <$> operation a b
  | closed a, opened b => opened <$> operation a b
  | opened a, closed b => opened <$> operation a b
  | opened a, opened b => opened <$> operation a b

def add : Bound → Bound → Except Fault Bound := combine addWords

def sub : Bound → Bound → Except Fault Bound := combine subWords

def text : Bound → String
  | infinite => "w"
  | closed v => "=" ++ decimal v
  | opened v => "x" ++ decimal v

def lowerText : Bound → String
  | infinite => "∞"
  | closed v => decimal v ++ " ≤"
  | opened v => decimal v ++ " <"

def upperText : Bound → String
  | infinite => "< ∞"
  | closed v => "≤ " ++ decimal v
  | opened v => "< " ++ decimal v

end Bound

end TimePetri
