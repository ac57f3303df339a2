import TimePetri.Event

namespace TimePetri

-- For each transition, the increasing list of the transitions below it.
abbrev Relation := Array (List Nat)

namespace Priority

inductive Flaw where
  | noMinimal
  | ownLower (transition : String)
  | cycle (transitions : List String)
  deriving DecidableEq

def Flaw.message : Flaw → String
  | .noMinimal => "problem with priorities, no minimal elements"
  | .ownLower transition => "cyclic dependencies in priority for " ++ transition
  | .cycle transitions => "cyclic dependencies between priorities of " ++ ", ".intercalate transitions

-- Where the names run out, a transition goes by its number.
def nameOf (names : Array String) (transition : Nat) : String :=
  names[transition]?.getD (toString transition)

-- Of itertools it is taken for granted that a merge takes the lesser of the two first
-- elements, the left one if they are equal, and that repetitions are looked for among
-- neighbours only.
def squeeze : List Nat → List Nat
  | a :: b :: rest => if a = b then squeeze (b :: rest) else a :: squeeze (b :: rest)
  | short => short

def union (xs ys : List Nat) : List Nat := squeeze (xs.merge ys)

def insert (xs : List Nat) (x : Nat) : List Nat := union xs [x]

def lowerOf (relation : Relation) (transition : Nat) : List Nat := relation[transition]?.getD []

-- One step down from a transition and from everything directly below it.
def extended (relation : Relation) (transition : Nat) : List Nat :=
  (lowerOf relation transition).foldl (fun reached lower => union reached (lowerOf relation lower))
    (lowerOf relation transition)

def isReady (relation : Relation) (final : List Nat) (transition : Nat) : Bool :=
  (lowerOf relation transition).all (final.contains ·)

def pass (relation : Relation) (ready : List Nat) : Relation :=
  ready.foldl (fun next transition => next.setIfInBounds transition (extended relation transition)) relation

-- A number is looked up in a row by halving what is left of it: the half that can
-- hold the number if the row increases.
def half (x : Nat) (row : List Nat) : List Nat :=
  if x < row.getD (row.length / 2) 0 then row.take (row.length - row.length / 2)
  else row.drop (row.length / 2)

theorem half_length (x : Nat) (row : List Nat) : (half x row).length = row.length - row.length / 2 := by
  unfold half
  split
  · rw [List.length_take]; omega
  · exact List.length_drop

def search (x : Nat) : List Nat → Bool
  | [] => false
  | [y] => y = x
  | y :: z :: rest => search x (half x (y :: z :: rest))
termination_by row => row.length
decreasing_by rw [half_length]; simp only [List.length_cons]; omega

-- What is reported when a pass completes nothing: the first open transition that its own
-- list names, or else all that are open.
def stuck (relation : Relation) (names : Array String) (work : List Nat) : Flaw :=
  match work.find? (fun transition => search transition (lowerOf relation transition)) with
  | some transition => .ownLower (nameOf names transition)
  | none => .cycle (work.map (nameOf names))

structure Closure where
  relation : Relation
  passes : Except Flaw Nat

def readyAmong (relation : Relation) (final work : List Nat) : List Nat := work.filter (isReady relation final)

def openAmong (relation : Relation) (final work : List Nat) : List Nat :=
  work.filter fun transition => !isReady relation final transition

theorem openAmong_shorter (relation : Relation) (final work : List Nat)
    (progress : readyAmong relation final work ≠ []) :
    (openAmong relation final work).length < work.length := by
  obtain ⟨transition,member⟩ := List.exists_mem_of_ne_nil _ progress
  obtain ⟨inWork,ready⟩ := List.mem_filter.mp member
  unfold openAmong
  rw [List.length_filter_lt_length_iff_exists]
  exact ⟨transition,inWork,by simp [ready]⟩

-- Transitions are completed from the bottom up. Those whose lower transitions are
-- all final take the lists of these along and become final for the next pass.
def closeFrom (relation : Relation) (names : Array String) (final work : List Nat) (passes : Nat) : Closure :=
  if work = [] then ⟨relation,.ok passes⟩
  else if h : readyAmong relation final work = [] then ⟨relation,.error (stuck relation names work)⟩
  else
    let ready := readyAmong relation final work
    closeFrom (pass relation ready) names (final ++ ready) (openAmong relation final work) (passes + 1)
termination_by work.length
decreasing_by exact openAmong_shorter _ _ _ h

def isBottom (relation : Relation) (transition : Nat) : Bool := (lowerOf relation transition).isEmpty

def close (relation : Relation) (names : Array String) : Closure :=
  let transitions := List.range relation.size
  let final := transitions.filter (isBottom relation)
  let work := transitions.filter fun t => !isBottom relation t
  if work = [] then ⟨relation,.ok 0⟩
  else if final = [] then ⟨relation,.error .noMinimal⟩
  else closeFrom relation names final work 0

-- Only a relation that had something to close is reported.
def Closure.events (closure : Closure) : List Event :=
  match closure.passes with
  | .ok (passes + 1) => [⟨.debug,s!"Closed priority relation in {passes + 1} passes."⟩]
  | _ => []

end Priority

end TimePetri
