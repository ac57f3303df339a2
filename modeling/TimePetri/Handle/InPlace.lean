import TimePetri.Handle

namespace TimePetri

-- The tables as they share one memory. A block is allocated once, at an address of its
-- own, and is never written again; a table holds the addresses of its keys. A table is a
-- map of dashmap, of which it is taken for granted that a key is found by its bytes, that
-- entries are never moved to another key, and that each call is alone with its table.
structure Store where
  blocks : List (List UInt8)
  tables : List (List Nat)
  deriving DecidableEq

namespace Store

def fresh (count : Nat) : Store := ⟨[],List.replicate count []⟩

def bytes? (store : Store) (address : Nat) : Option (List UInt8) := store.blocks[address]?

def key? (store : Store) (owner slot : Nat) : Option Nat := store.tables[owner]?.bind (·[slot]?)

def find? (store : Store) (table : List Nat) (bytes : List UInt8) : Option Nat :=
  table.find? fun address => store.bytes? address = some bytes

def allocate (store : Store) (bytes : List UInt8) : Nat × Store :=
  (store.blocks.length,{ store with blocks := store.blocks ++ [bytes] })

def insert (store : Store) (owner address : Nat) : Store :=
  { store with tables := store.tables.modify owner (· ++ [address]) }

-- The handle of a marking is the address of its key. The table is searched before the
-- encoding is given a block, and once more with it.
def handle (store : Store) (owner : Nat) (m : Marking) : Option (Logged (Except EncodingError Nat × Store)) := do
  let table ← store.tables[owner]?
  match m.encode with
  | .error flaw => return .quiet (.error flaw,store)
  | .ok bytes =>
    match store.find? table bytes with
    | some address => return .quiet (.ok address,store)
    | none =>
      let (address,next) := store.allocate bytes
      match next.find? table bytes with
      | some other => return .quiet (.ok other,next)
      | none => return ⟨[⟨.trace,"Interning marking " ++ m.text ++ "."⟩],(.ok address,next.insert owner address)⟩

def run (store : Store) : List (Nat × Marking) → Option (List (Except EncodingError Nat) × Store)
  | [] => some ([],store)
  | (owner,m) :: rest => do
    let done ← store.handle owner m
    let (answers,last) ← done.value.2.run rest
    return (done.value.1 :: answers,last)

end Store

def Pool.run (pool : Pool) : List (Nat × Marking) → Option (List (Except EncodingError Handle) × Pool)
  | [] => some ([],pool)
  | (owner,m) :: rest => do
    let done ← pool.intern owner m
    match done.value with
    | .error flaw =>
      let (answers,last) ← pool.run rest
      return (.error flaw :: answers,last)
    | .ok (handle,next) =>
      let (answers,last) ← next.run rest
      return (.ok handle :: answers,last)

end TimePetri
