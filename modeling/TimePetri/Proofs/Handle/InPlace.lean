import TimePetri.Handle.InPlace
import TimePetri.Proofs.Marking.Encoding

namespace TimePetri

variable {store : Store} {pool : Pool} {table : Interner} {owner address : Nat} {bytes : List UInt8} {keys : List Nat}
  {entries : List (List UInt8)}

theorem appended_at (xs : List α) (last : α) (index : Nat) :
    (xs ++ [last])[index]? = if index = xs.length then some last else xs[index]? := by
  rw [List.getElem?_append,List.getElem?_singleton]
  rcases Nat.lt_trichotomy index xs.length with before | here | beyond
  · rw [if_pos before,if_neg (Nat.ne_of_lt before)]
  · simp [here]
  · rw [if_neg (by omega),if_neg (by omega),if_neg (by omega),List.getElem?_eq_none (by omega)]

namespace Store

-- Keys in one memory and entries in a list of their own, position by position.
def Holds (store : Store) (keys : List Nat) (entries : List (List UInt8)) : Prop :=
  keys.map store.bytes? = entries.map some

theorem holds_key (holds : store.Holds keys entries) (slot : Nat) :
    keys[slot]?.bind store.bytes? = entries[slot]? := by
  have same := congrArg (fun found => found[slot]?) holds
  simp only [List.getElem?_map] at same
  cases key : keys[slot]? <;> cases entry : entries[slot]? <;> simp [key,entry] at same ⊢
  exact same

theorem holds_length (holds : store.Holds keys entries) : keys.length = entries.length := by
  simpa using congrArg List.length holds

theorem find?_exact (holds : store.Holds keys entries) (bytes : List UInt8) :
    store.find? keys bytes = (entries.idxOf? bytes).bind (keys[·]?) := by
  induction keys generalizing entries with
  | nil =>
    cases entries with
    | nil => rfl
    | cons => cases holds
  | cons key rest ih =>
    cases entries with
    | nil => cases holds
    | cons entry others =>
      have here : store.bytes? key = some entry := (List.cons.inj holds).1
      have later : store.Holds rest others := (List.cons.inj holds).2
      rw [find?,List.find?_cons,List.idxOf?_cons,here]
      by_cases same : entry = bytes
      · simp [same]
      · simp only [Option.some.injEq,same,decide_false,beq_iff_eq,if_false]
        rw [← find?,ih later]
        cases others.idxOf? bytes <;> rfl

theorem bytes?_allocated (bytes : List UInt8) (address : Nat) :
    (store.allocate bytes).2.bytes? address =
      if address = store.blocks.length then some bytes else store.bytes? address := appended_at store.blocks bytes address

theorem bytes?_old (found : store.bytes? address = some bytes) (new : List UInt8) :
    (store.allocate new).2.bytes? address = some bytes := by
  rw [bytes?_allocated,if_neg,found]
  rintro rfl
  rw [bytes?,List.getElem?_eq_none (Nat.le_refl _)] at found
  cases found

theorem holds_allocated (holds : store.Holds keys entries) (new : List UInt8) :
    (store.allocate new).2.Holds keys entries := by
  refine Eq.trans (List.map_congr_left fun key member => ?_) holds
  obtain ⟨bytes,_,found⟩ := List.mem_map.mp (holds ▸ List.mem_map_of_mem member)
  rw [← found,bytes?_old found.symm]

def extended (store : Store) (owner : Nat) (bytes : List UInt8) : Store :=
  (store.allocate bytes).2.insert owner store.blocks.length

theorem holds_extended (holds : store.Holds keys entries) (owner : Nat) (new : List UInt8) :
    (store.extended owner new).Holds (keys ++ [store.blocks.length]) (entries ++ [new]) := by
  have old : keys.map (store.extended owner new).bytes? = entries.map some := holds_allocated holds new
  have here : (store.extended owner new).bytes? store.blocks.length = some new :=
    (bytes?_allocated new _).trans (if_pos rfl)
  rw [Holds,List.map_append,List.map_append,old,List.map_singleton,here,List.map_singleton]

theorem tables_extended (owner : Nat) (bytes : List UInt8) (other : Nat) :
    (store.extended owner bytes).tables[other]? =
      store.tables[other]?.map fun keys => if owner = other then keys ++ [store.blocks.length] else keys :=
  List.getElem?_modify _ owner store.tables other

theorem key?_extended (stored : store.tables[owner]? = some keys) (bytes : List UInt8) (other slot : Nat) :
    (store.extended owner bytes).key? other slot =
      if other = owner ∧ slot = keys.length then some store.blocks.length else store.key? other slot := by
  unfold key?
  rw [tables_extended]
  by_cases here : other = owner
  · subst here
    rw [stored]
    simpa using appended_at keys store.blocks.length slot
  · rw [if_neg fun same => here same.1]
    simp [Ne.symm here]

theorem handle_exact (stored : store.tables[owner]? = some keys) (holds : store.Holds keys entries) (m : Marking) :
    store.handle owner m = some (match m.encode with
      | .error flaw => .quiet (.error flaw,store)
      | .ok bytes => match (entries.idxOf? bytes).bind (keys[·]?) with
        | some address => .quiet (.ok address,store)
        | none => ⟨[⟨.trace,"Interning marking " ++ m.text ++ "."⟩],
            (.ok store.blocks.length,store.extended owner bytes)⟩) := by
  unfold handle
  rw [stored]
  cases m.encode with
  | error flaw => rfl
  | ok bytes =>
    have once := find?_exact holds bytes
    have again := find?_exact (holds_allocated holds bytes) bytes
    simp only [Option.bind_eq_bind,Option.bind_some,once]
    cases found : (entries.idxOf? bytes).bind (keys[·]?) with
    | some address => rfl
    | none => rw [again,found]; rfl

end Store

theorem Pool.intern_exact (tabled : pool.tables[owner]? = some table) (m : Marking) :
    pool.intern owner m = some (match m.encode with
      | .error flaw => .quiet (.error flaw)
      | .ok bytes => match table.entries.idxOf? bytes with
        | some slot => .quiet (.ok (⟨table.owner,slot,bytes⟩,pool))
        | none => ⟨[⟨.trace,"Interning marking " ++ m.text ++ "."⟩],
            .ok (⟨table.owner,table.size,bytes⟩,
              ⟨pool.tables.set owner { table with entries := table.entries ++ [bytes] }⟩)⟩) := by
  have same : pool.tables.set owner table = pool.tables := by
    obtain ⟨inside,rfl⟩ := List.getElem?_eq_some_iff.mp tabled
    exact List.set_getElem_self inside
  unfold intern table?
  rw [tabled]
  simp only [Option.bind_eq_bind,Option.bind_some,Interner.intern]
  cases m.encode with
  | error flaw => rfl
  | ok bytes =>
    dsimp only
    cases table.entries.idxOf? bytes with
    | none => rfl
    | some slot =>
      simp only [Logged.quiet,Except.map,same]
      rfl

end TimePetri
