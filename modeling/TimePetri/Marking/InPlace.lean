import TimePetri.Marking.Encoding

namespace TimePetri

-- A marking as it is carried out, on one table of atoms. Nothing but the operations
-- themselves keeps the table in order, and reading or writing outside it is a fault.
abbrev AtomTable := Array Atom

def Marking.table (m : Marking) : AtomTable := m.atoms.toArray

inductive Slot where
  | taken (index : Nat)
  | free (index : Nat)
  deriving DecidableEq

namespace AtomTable

def narrow (table : AtomTable) (place base size : Nat) : Except Fault Nat :=
  if size ≤ 1 then .ok base
  else do
    let middle ← fetch table (base + size / 2)
    narrow table place (if place < middle.place then base else base + size / 2) (size - size / 2)
termination_by size

def locate (table : AtomTable) (place : Nat) : Except Fault Slot :=
  if table.isEmpty then .ok (.free 0)
  else do
    let base ← narrow table place 0 table.size
    let last ← fetch table base
    return if last.place = place then .taken base else if last.place < place then .free (base + 1) else .free base

def multAt (table : AtomTable) (place : Nat) : Except Fault Int64 := do
  match ← table.locate place with
  | .taken index => return (← fetch table index).mult
  | .free _ => return 0

def insertAt (table : AtomTable) (index : Nat) (atom : Atom) : Except Fault AtomTable :=
  if _ : index ≤ table.size then .ok (table.insertIdx index atom) else .error (.outOfBounds table.size index)

def removeAt (table : AtomTable) (index : Nat) : Except Fault AtomTable :=
  if _ : index < table.size then .ok (table.eraseIdx index) else .error (.outOfBounds table.size index)

def writeAt (table : AtomTable) (index : Nat) (mult : Int64) : Except Fault AtomTable := do
  return table.setIfInBounds index { ← fetch table index with mult }

def addAt (table : AtomTable) (place : Nat) (change : Int64) : Except Fault AtomTable :=
  if change = 0 then .ok table
  else do
    match ← table.locate place with
    | .taken index =>
      let mult ← addWords (← fetch table index).mult change
      if mult = 0 then table.removeAt index else table.writeAt index mult
    | .free index => table.insertAt index ⟨place,change⟩

-- The table after the call, and the place that has no room for the change.
def addAtChecked (table : AtomTable) (place : Nat) (change : Int64) :
    Except Fault (AtomTable × Option MarkingError) := do
  match ← table.locate place with
  | .taken index =>
    match addWords (← fetch table index).mult change with
    | .ok _ => return (← table.addAt place change,none)
    | .error _ => return (table,some (.overflow place))
  | .free _ => return (← table.addAt place change,none)

def update (pick : Int64 → Int64 → Int64) (table : AtomTable) (place : Nat) (value : Int64) : Except Fault AtomTable :=
  if value = 0 then .ok table
  else do
    match ← table.locate place with
    | .taken index => table.writeAt index (pick (← fetch table index).mult value)
    | .free index => table.insertAt index ⟨place,value⟩

def raise : AtomTable → Nat → Int64 → Except Fault AtomTable := update max

def lower : AtomTable → Nat → Int64 → Except Fault AtomTable := update min

def collect (pairs : List (Nat × Int64)) : Except Fault AtomTable :=
  pairs.foldlM (fun table pair => table.addAt pair.1 pair.2) #[]

-- Two lists of atoms are run through side by side, as the joining merge of itertools is
-- taken to do it. The one that is behind goes on, and where both are at one place their
-- sum is left out if it is zero.
def merge : List Atom → List Atom → Except Fault (List Atom)
  | [], others => .ok others
  | atoms, [] => .ok atoms
  | a :: atoms, b :: others =>
    if a.place < b.place then do return a :: (← merge atoms (b :: others))
    else if b.place < a.place then do return b :: (← merge (a :: atoms) others)
    else do
      let mult ← addWords a.mult b.mult
      return entry a.place mult ++ (← merge atoms others)
termination_by atoms others => atoms.length + others.length

def add (table other : AtomTable) : Except Fault AtomTable := do
  return (← merge table.toList other.toList).toArray

def neg (table : AtomTable) : Except Fault AtomTable := do
  return (← table.toList.mapM fun a => return { a with mult := ← negWord a.mult }).toArray

def sub (table other : AtomTable) : Except Fault AtomTable := do
  table.add (← other.neg)

def flawAt (table : AtomTable) (index : Nat) : Except Fault (Option MarkingError) := do
  let atom ← fetch table index
  if atom.mult = 0 then return some (.zero atom.place)
  else if index = 0 then return none
  else
    let before ← fetch table (index - 1)
    return if atom.place ≤ before.place then some (.unsorted atom.place) else none

def firstFlaw (table : AtomTable) : Except Fault (Option MarkingError) :=
  (List.range table.size).findSomeM? table.flawAt

def convert (given : AtomTable) : Except Fault (Except MarkingError AtomTable) := do
  match ← given.firstFlaw with
  | some flaw => return .error flaw
  | none => return .ok given

def encode (table : AtomTable) : Except EncodingError (List UInt8) := do
  return (← table.toList.mapM Atom.encode).flatten

def decode (bytes : List UInt8) : AtomTable := (decodeAtoms bytes).toArray

-- The tables that operations lead to, from one another and from what is given.
inductive Built : AtomTable → Prop where
  | empty : Built #[]
  | collected {table : AtomTable} (pairs : List (Nat × Int64)) (done : collect pairs = .ok table) : Built table
  | converted {given table : AtomTable} (done : convert given = .ok (.ok table)) : Built table
  | added {table next : AtomTable} (place : Nat) (change : Int64) (built : Built table)
      (done : table.addAt place change = .ok next) : Built next
  | addedChecked {table next : AtomTable} {refusal : Option MarkingError} (place : Nat) (change : Int64)
      (built : Built table) (done : table.addAtChecked place change = .ok (next,refusal)) : Built next
  | raised {table next : AtomTable} (place : Nat) (value : Int64) (built : Built table)
      (done : table.raise place value = .ok next) : Built next
  | lowered {table next : AtomTable} (place : Nat) (value : Int64) (built : Built table)
      (done : table.lower place value = .ok next) : Built next
  | sum {table other next : AtomTable} (built : Built table) (otherBuilt : Built other)
      (done : table.add other = .ok next) : Built next
  | difference {table other next : AtomTable} (built : Built table) (otherBuilt : Built other)
      (done : table.sub other = .ok next) : Built next
  | negated {table next : AtomTable} (built : Built table) (done : table.neg = .ok next) : Built next
  | decoded {table : AtomTable} {bytes : List UInt8} (built : Built table) (done : table.encode = .ok bytes) :
      Built (decode bytes)

end AtomTable

end TimePetri
