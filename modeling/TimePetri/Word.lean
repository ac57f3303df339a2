namespace TimePetri

-- Multiplicities and bound values are signed 64-bit words. A result that does
-- not fit is never wrapped: it is a fault that names the operation. A table read
-- outside its length is the only other fault.
inductive Operation where
  | add
  | sub
  | neg
  deriving DecidableEq

inductive Fault where
  | overflow (operation : Operation)
  | outOfBounds (length index : Nat)
  deriving DecidableEq

def Operation.gerund : Operation → String
  | .add => "add"
  | .sub => "subtract"
  | .neg => "negate"

def Fault.message : Fault → String
  | .overflow operation => s!"attempt to {operation.gerund} with overflow"
  | .outOfBounds length index => s!"index out of bounds: the len is {length} but the index is {index}"

def wordLimit : Int := 9223372036854775808

def word? (n : Int) : Option Int64 :=
  if -wordLimit ≤ n ∧ n < wordLimit then some (Int64.ofInt n) else none

theorem word?_exact (n : Int) (w : Int64) : word? n = some w ↔ w.toInt = n := by
  unfold word?
  constructor
  · intro found
    split at found
    · next fits =>
      cases found
      exact Int64.toInt_ofInt_of_le (by simpa [wordLimit] using fits.1) (by simpa [wordLimit] using fits.2)
    · cases found
  · intro value
    have low := Int64.le_toInt w
    have high := Int64.toInt_lt w
    unfold wordLimit
    rw [← value,if_pos ⟨by omega,by omega⟩,Int64.ofInt_toInt]

theorem word?_none (n : Int) : word? n = none ↔ n < -wordLimit ∨ wordLimit ≤ n := by
  unfold word?
  split <;> simp <;> omega

def checked (operation : Operation) (n : Int) : Except Fault Int64 :=
  match word? n with
  | some w => .ok w
  | none => .error (.overflow operation)

def addWords (a b : Int64) : Except Fault Int64 := checked .add (a.toInt + b.toInt)
def subWords (a b : Int64) : Except Fault Int64 := checked .sub (a.toInt - b.toInt)
def negWord (a : Int64) : Except Fault Int64 := checked .neg (-a.toInt)

theorem checked_ok (operation : Operation) (n : Int) (w : Int64) :
    checked operation n = .ok w ↔ w.toInt = n := by
  unfold checked
  rw [← word?_exact]
  cases word? n <;> simp

def decimal (w : Int64) : String := toString w.toInt

def fetch (table : Array α) (index : Nat) : Except Fault α :=
  match table[index]? with
  | some row => .ok row
  | none => .error (.outOfBounds table.size index)

theorem fetch_ok (table : Array α) (index : Nat) (row : α) :
    fetch table index = .ok row ↔ table[index]? = some row := by
  unfold fetch
  cases table[index]? <;> simp

end TimePetri
