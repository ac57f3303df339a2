import TimePetri.Event
import TimePetri.Marking.Encoding

namespace TimePetri

-- A handle stands for a marking interned in one table: it tells the table, the
-- slot its encoding has there, and the encoding itself.
structure Handle where
  owner : Nat
  slot : Nat
  bytes : List UInt8
  deriving DecidableEq

-- Handles are compared by table and slot, never by the encoded marking.
def Handle.same (a b : Handle) : Bool := a.owner = b.owner && a.slot = b.slot

def Handle.marking (handle : Handle) : Except MarkingError Marking := Marking.decode handle.bytes

def Handle.text (m : Marking) : String := "Handle(" ++ m.text ++ ")"

structure Interner where
  owner : Nat
  entries : List (List UInt8)
  deriving DecidableEq

namespace Interner

def fresh (owner : Nat) : Interner := ⟨owner,[]⟩

def size (table : Interner) : Nat := table.entries.length

def isEmpty (table : Interner) : Bool := table.entries.isEmpty

-- An encoding already in the table keeps its slot. A new one takes the next slot,
-- which is reported. A marking without an encoding changes nothing.
def intern (table : Interner) (m : Marking) : Logged (Except EncodingError (Handle × Interner)) :=
  match m.encode with
  | .error flaw => .quiet (.error flaw)
  | .ok bytes =>
    match table.entries.idxOf? bytes with
    | some slot => .quiet (.ok (⟨table.owner,slot,bytes⟩,table))
    | none =>
      ⟨[⟨.trace,"Interning marking " ++ m.text ++ "."⟩],
        .ok (⟨table.owner,table.size,bytes⟩,{ table with entries := table.entries ++ [bytes] })⟩

end Interner

structure Pool where
  tables : List Interner

namespace Pool

def fresh (count : Nat) : Pool := ⟨(List.range count).map Interner.fresh⟩

def table? (pool : Pool) (owner : Nat) : Option Interner := pool.tables[owner]?

def intern (pool : Pool) (owner : Nat) (m : Marking) :
    Option (Logged (Except EncodingError (Handle × Pool))) := do
  let table ← pool.table? owner
  let run := table.intern m
  return ⟨run.events,run.value.map fun (handle,next) => (handle,⟨pool.tables.set owner next⟩)⟩

end Pool

def firstSame (history : List Handle) (handle : Handle) : Nat := history.findIdx (·.same handle)

def distinctCount : List Handle → Nat
  | [] => 0
  | handle :: rest => distinctCount rest + if rest.any (·.same handle) then 0 else 1

end TimePetri
