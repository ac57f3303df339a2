import TimePetri.Interval.Basic

namespace TimePetri.Interval

-- An interval that is narrowed where it stands. It is written once the intersection is
-- known, so a refusal does not reach it.
def intersectWith (other : Interval) : EStateM IntervalError Interval Unit := do
  match (← get).intersection other with
  | .ok result => set result
  | .error reason => throw reason

def intersectAll (others : List Interval) : EStateM IntervalError Interval Unit := others.forM intersectWith

end TimePetri.Interval
