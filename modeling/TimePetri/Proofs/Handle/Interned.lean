import Mathlib.Data.Finset.Card
import Mathlib.Data.List.Forall2
import TimePetri.Proofs.Handle.InPlace

namespace TimePetri

variable {store : Store} {pool : Pool} {owner other count slot address : Nat} {bytes : List UInt8} {keys : List Nat}
  {table : Interner} {m : Marking} {call : Nat × Marking} {calls : List (Nat × Marking)}
  {given : Nat × Handle} {answers : List (Except EncodingError (Nat × Handle))}

namespace Handle

-- The handle given for a call is the key at its slot, and the encoding of the marking is
-- stored there.
structure Given (store : Store) (call : Nat × Marking) (given : Nat × Handle) : Prop where
  owned : given.2.owner = call.1
  encoded : call.2.encode = .ok given.2.bytes
  key : store.key? call.1 given.2.slot = some given.1
  stored : store.bytes? given.1 = some given.2.bytes

def Answered (store : Store) (call : Nat × Marking) : Except EncodingError (Nat × Handle) → Prop
  | .error flaw => call.2.encode = .error flaw
  | .ok given => Given store call given

-- The keys of one table are those of the table with a memory of its own, each once, and
-- they are the encodings of the markings that it was called with.
structure Mirrors (store : Store) (owner : Nat) (calls : List (Nat × Marking)) (keys : List Nat) (table : Interner) :
    Prop where
  owned : table.owner = owner
  holds : store.Holds keys table.entries
  once : table.entries.Nodup
  called : ∀ bytes, bytes ∈ table.entries ↔ ∃ m, (owner,m) ∈ calls ∧ m.encode = .ok bytes

structure Kept (count : Nat) (calls : List (Nat × Marking)) (answers : List (Except EncodingError (Nat × Handle)))
    (store : Store) (pool : Pool) : Prop where
  length : store.tables.length = count
  tables : ∀ owner < count, ∃ keys table, store.tables[owner]? = some keys ∧ pool.tables[owner]? = some table ∧
    Mirrors store owner calls keys table
  apart : ∀ owner other slot place address, store.key? owner slot = some address →
    store.key? other place = some address → owner = other ∧ slot = place
  answered : List.Forall₂ (Answered store) calls answers

theorem kept_fresh (count : Nat) : Kept count [] [] (.fresh count) (.fresh count) := by
  have empty {owner slot address : Nat} (found : (Store.fresh count).key? owner slot = some address) : False := by
    obtain ⟨keys,stored,here⟩ := Option.bind_eq_some_iff.mp found
    obtain ⟨_,rfl⟩ := List.mem_replicate.mp (List.mem_of_getElem? stored)
    cases here
  constructor
  case length => exact List.length_replicate
  case tables =>
    intro owner inside
    refine ⟨[],.fresh owner,?_,?_,rfl,rfl,List.nodup_nil,by simp [Interner.fresh]⟩
    · simp [Store.fresh,inside]
    · simp [Pool.fresh,inside]
  case apart => exact fun _ _ _ _ _ found _ => (empty found).elim
  case answered => exact .nil

theorem called_known {entries : List (List UInt8)}
    (called : ∀ bytes, bytes ∈ entries ↔ ∃ m, (owner,m) ∈ calls ∧ m.encode = .ok bytes)
    (known : call.1 = owner → ∀ bytes, call.2.encode = .ok bytes → bytes ∈ entries) (bytes : List UInt8) :
    bytes ∈ entries ↔ ∃ m, (owner,m) ∈ calls ++ [call] ∧ m.encode = .ok bytes := by
  constructor
  · intro member
    obtain ⟨m,before,encoded⟩ := (called bytes).mp member
    exact ⟨m,List.mem_append_left _ before,encoded⟩
  · rintro ⟨m,member,encoded⟩
    rcases List.mem_append.mp member with before | now
    · exact (called bytes).mpr ⟨m,before,encoded⟩
    · cases List.mem_singleton.mp now
      exact known rfl bytes encoded

theorem kept_known (kept : Kept count calls answers store pool) {answer : Except EncodingError (Nat × Handle)}
    (answered : Answered store call answer)
    (known : ∀ keys table, store.tables[call.1]? = some keys → pool.tables[call.1]? = some table →
      ∀ bytes, call.2.encode = .ok bytes → bytes ∈ table.entries) :
    Kept count (calls ++ [call]) (answers ++ [answer]) store pool := by
  refine ⟨kept.length,fun owner inside => ?_,kept.apart,List.rel_append kept.answered (.cons answered .nil)⟩
  obtain ⟨keys,table,stored,tabled,mirrors⟩ := kept.tables owner inside
  refine ⟨keys,table,stored,tabled,{ mirrors with called := called_known mirrors.called ?_ }⟩
  rintro rfl
  exact known keys table stored tabled

theorem given_extended (stored : store.tables[owner]? = some keys) (here : Given store call given) (bytes : List UInt8) :
    Given (store.extended owner bytes) call given := by
  refine { here with key := ?_, stored := Store.bytes?_old here.stored bytes }
  rw [Store.key?_extended stored,if_neg]
  · exact here.key
  · rintro ⟨same,last⟩
    have key := here.key
    rw [Store.key?,same,stored,Option.bind_some,last,List.getElem?_eq_none (Nat.le_refl _)] at key
    cases key

theorem answered_extended (stored : store.tables[owner]? = some keys) (bytes : List UInt8)
    (call : Nat × Marking) (answer : Except EncodingError (Nat × Handle)) (here : Answered store call answer) :
    Answered (store.extended owner bytes) call answer := by
  cases answer with
  | error flaw => exact here
  | ok given => exact given_extended stored here bytes

theorem key_allocated (kept : Kept count calls answers store pool) (found : store.key? owner slot = some address) :
    address < store.blocks.length := by
  obtain ⟨keys,stored,here⟩ := Option.bind_eq_some_iff.mp found
  have inside : owner < count := kept.length ▸ (List.getElem?_eq_some_iff.mp stored).1
  obtain ⟨_,table,same,_,mirrors⟩ := kept.tables owner inside
  cases stored.symm.trans same
  obtain ⟨bytes,block⟩ : ∃ bytes, table.entries[slot]? = some bytes :=
    ⟨_,List.getElem?_eq_getElem (Store.holds_length mirrors.holds ▸ (List.getElem?_eq_some_iff.mp here).1)⟩
  have stores := Store.holds_key mirrors.holds slot
  rw [here,block,Option.bind_some] at stores
  exact (List.getElem?_eq_some_iff.mp stores).1

theorem mirrors_extended (mirrors : Mirrors store owner calls keys table) (encoded : m.encode = .ok bytes)
    (absent : bytes ∉ table.entries) : Mirrors (store.extended owner bytes) owner (calls ++ [(owner,m)])
      (keys ++ [store.blocks.length]) { table with entries := table.entries ++ [bytes] } where
  owned := mirrors.owned
  holds := Store.holds_extended mirrors.holds owner bytes
  once := List.nodup_append.mpr ⟨mirrors.once,List.nodup_singleton bytes,by
    rintro entry member _ last rfl
    exact absent (List.mem_singleton.mp last ▸ member)⟩
  called := by
    intro entry
    rw [List.mem_append,List.mem_singleton,mirrors.called]
    simp only [List.mem_append,List.mem_singleton,Prod.mk.injEq,true_and]
    constructor
    · rintro (⟨m,before,encoded⟩ | rfl)
      · exact ⟨m,.inl before,encoded⟩
      · exact ⟨m,.inr rfl,encoded⟩
    · rintro ⟨m,before | rfl,found⟩
      · exact .inl ⟨m,before,found⟩
      · exact .inr (Except.ok.inj (found.symm.trans encoded))

theorem kept_extended (kept : Kept count calls answers store pool) (stored : store.tables[owner]? = some keys)
    (tabled : pool.tables[owner]? = some table) (mirrors : Mirrors store owner calls keys table)
    (encoded : m.encode = .ok bytes) (absent : bytes ∉ table.entries) :
    Kept count (calls ++ [(owner,m)]) (answers ++ [.ok (store.blocks.length,⟨owner,table.size,bytes⟩)])
      (store.extended owner bytes)
      ⟨pool.tables.set owner { table with entries := table.entries ++ [bytes] }⟩ := by
  have size : table.size = keys.length := (Store.holds_length mirrors.holds).symm
  constructor
  case length => exact (List.length_modify _ _ _).trans kept.length
  case tables =>
    intro other inside
    by_cases here : owner = other
    · subst here
      refine ⟨_,_,?_,List.getElem?_set_self (List.getElem?_eq_some_iff.mp tabled).1,mirrors_extended mirrors encoded absent⟩
      rw [Store.tables_extended,stored,Option.map_some,if_pos rfl]
    · obtain ⟨others,next,found,same,apart⟩ := kept.tables other inside
      refine ⟨others,next,?_,(List.getElem?_set_ne here).trans same,
        { apart with
          holds := Store.holds_allocated apart.holds bytes
          called := called_known apart.called fun now => absurd now here }⟩
      rw [Store.tables_extended,found,Option.map_some,if_neg here]
  -- The new block has an address that no table held before.
  case apart =>
    intro first second slot place address one two
    rw [Store.key?_extended stored] at one two
    split at one <;> split at two
    · next new new' => exact ⟨new.1.trans new'.1.symm,new.2.trans new'.2.symm⟩
    · cases one; exact absurd (key_allocated kept two) (Nat.lt_irrefl _)
    · cases two; exact absurd (key_allocated kept one) (Nat.lt_irrefl _)
    · exact kept.apart _ _ _ _ _ one two
  case answered =>
    refine List.rel_append (kept.answered.imp (answered_extended stored bytes)) (.cons ?_ .nil)
    refine ⟨rfl,encoded,?_,?_⟩
    · rw [Store.key?_extended stored,if_pos ⟨rfl,size⟩]
    · exact (Store.bytes?_allocated bytes _).trans (if_pos rfl)

theorem kept_step (kept : Kept count calls answers store pool) (inside : owner < count) (m : Marking) :
    ∃ events answer store' pool', store.handle owner m = some ⟨events,(Except.map Prod.fst answer,store')⟩ ∧
      pool.intern owner m = some ⟨events,answer.map fun given => (given.2,pool')⟩ ∧
      (∀ flaw, answer = .error flaw → store' = store ∧ pool' = pool) ∧
      Kept count (calls ++ [(owner,m)]) (answers ++ [answer]) store' pool' := by
  obtain ⟨keys,table,stored,tabled,mirrors⟩ := kept.tables owner inside
  have handled := Store.handle_exact stored mirrors.holds m
  have interned := Pool.intern_exact tabled m
  obtain rfl := mirrors.owned
  cases encoded : m.encode with
  | error flaw =>
    rw [encoded] at handled interned
    refine ⟨[],.error flaw,store,pool,handled,interned,fun _ _ => ⟨rfl,rfl⟩,kept_known kept encoded ?_⟩
    intro _ _ _ _ bytes other
    cases encoded.symm.trans other
  | ok bytes =>
    simp only [encoded] at handled interned
    cases found : table.entries.idxOf? bytes with
    | none =>
      simp only [found,Option.bind_none] at handled interned
      exact ⟨_,.ok (store.blocks.length,⟨table.owner,table.size,bytes⟩),_,_,handled,interned,nofun,
        kept_extended kept stored tabled mirrors encoded (List.idxOf?_eq_none_iff.mp found)⟩
    | some slot =>
      obtain ⟨below,entry,_⟩ := List.idxOf?_eq_some_iff.mp found
      obtain ⟨address,key⟩ : ∃ address, keys[slot]? = some address :=
        ⟨_,List.getElem?_eq_getElem (Store.holds_length mirrors.holds ▸ below)⟩
      simp only [found,Option.bind_some,key] at handled interned
      have block : store.bytes? address = some bytes := by
        have stores := Store.holds_key mirrors.holds slot
        rwa [key,Option.bind_some,List.getElem?_eq_getElem below,entry] at stores
      refine ⟨[],.ok (address,⟨table.owner,slot,bytes⟩),store,pool,handled,interned,nofun,kept_known kept ?_ ?_⟩
      · exact ⟨rfl,encoded,by rw [Store.key?,stored,Option.bind_some,key],block⟩
      · intro _ _ _ other bytes again
        cases tabled.symm.trans other
        cases encoded.symm.trans again
        exact entry ▸ List.getElem_mem below

theorem kept_run (kept : Kept count calls answers store pool) (rest : List (Nat × Marking))
    (known : ∀ call ∈ rest, call.1 < count) :
    ∃ others store' pool', store.run rest = some (others.map (Except.map Prod.fst),store') ∧
      pool.run rest = some (others.map (Except.map Prod.snd),pool') ∧
      Kept count (calls ++ rest) (answers ++ others) store' pool' := by
  induction rest generalizing calls answers store pool with
  | nil => exact ⟨[],store,pool,rfl,rfl,by rwa [List.append_nil,List.append_nil]⟩
  | cons call rest ih =>
    obtain ⟨owner,m⟩ := call
    obtain ⟨events,answer,middle,middle',handled,interned,refused,next⟩ := kept_step kept (known (owner,m) (by simp)) m
    obtain ⟨others,last,last',ran,ran',done⟩ := ih next fun call member => known call (List.mem_cons_of_mem _ member)
    refine ⟨answer :: others,last,last',?_,?_,by rwa [List.append_assoc,List.append_assoc] at done⟩
    · rw [Store.run,handled]
      simp only [Option.bind_eq_bind,Option.bind_some,ran]
      rfl
    · rw [Pool.run,interned]
      cases answer with
      | error flaw =>
        obtain ⟨rfl,rfl⟩ := refused flaw rfl
        simp only [Except.map,Option.bind_eq_bind,Option.bind_some,ran']
        rfl
      | ok given =>
        simp only [Except.map,Option.bind_eq_bind,Option.bind_some,ran']
        rfl

def interned (owner : Nat) (calls : List (Nat × Marking)) : List Marking :=
  (calls.filter fun (called,m) => called = owner ∧ m.encode.isOk).map Prod.snd

theorem interned_exact : m ∈ interned owner calls ↔ (owner,m) ∈ calls ∧ ∃ bytes, m.encode = .ok bytes := by
  unfold interned
  simp only [List.mem_map,List.mem_filter,Prod.exists,decide_eq_true_iff]
  constructor
  · rintro ⟨_,_,⟨member,rfl,encodes⟩,rfl⟩
    refine ⟨member,?_⟩
    cases encoded : Marking.encode _ with
    | ok bytes => exact ⟨bytes,rfl⟩
    | error flaw => rw [encoded] at encodes; cases encodes
  · rintro ⟨member,bytes,encoded⟩
    exact ⟨owner,m,⟨member,rfl,by rw [encoded]; rfl⟩,rfl⟩

theorem mirrors_size (mirrors : Mirrors store owner calls keys table) :
    table.size = (interned owner calls).toFinset.card := by
  classical
  have image : (interned owner calls).toFinset.image Marking.encode = table.entries.toFinset.image .ok := by
    ext result
    simp only [Finset.mem_image,List.mem_toFinset,interned_exact,mirrors.called]
    constructor
    · rintro ⟨m,⟨member,bytes,encoded⟩,rfl⟩
      exact ⟨bytes,⟨m,member,encoded⟩,encoded.symm⟩
    · rintro ⟨bytes,⟨m,member,encoded⟩,rfl⟩
      exact ⟨m,⟨member,bytes,encoded⟩,encoded⟩
  have once : ((interned owner calls).toFinset.image Marking.encode).card = (interned owner calls).toFinset.card := by
    refine Finset.card_image_of_injOn fun m member other _ same => ?_
    obtain ⟨_,bytes,encoded⟩ := interned_exact.mp (List.mem_toFinset.mp member)
    exact Marking.encode_unique encoded (same ▸ encoded)
  rw [← once,image,Finset.card_image_of_injective _ fun _ _ => Except.ok.inj,List.toFinset_card_of_nodup mirrors.once]
  rfl

theorem given_same (kept : Kept count calls answers store pool) {first second : Nat × Marking} {a b : Nat × Handle}
    (one : Given store first a) (two : Given store second b) : a.2.same b.2 ↔ a.1 = b.1 := by
  unfold same
  rw [Bool.and_eq_true,decide_eq_true_iff,decide_eq_true_iff,one.owned,two.owned]
  constructor
  · rintro ⟨owner,slot⟩
    have key := one.key
    rw [owner,slot,two.key] at key
    exact (Option.some.inj key).symm
  · intro address
    exact kept.apart _ _ _ _ _ one.key (address ▸ two.key)

theorem given_unique (kept : Kept count calls answers store pool) {first second : Nat × Marking} {a b : Nat × Handle}
    (inside : first.1 < count) (one : Given store first a) (two : Given store second b) :
    a.1 = b.1 ↔ first = second := by
  constructor
  · intro address
    have bytes : a.2.bytes = b.2.bytes := Option.some.inj (one.stored.symm.trans (address ▸ two.stored))
    have owner := (kept.apart _ _ _ _ _ one.key (address ▸ two.key)).1
    exact Prod.ext owner (Marking.encode_unique one.encoded (bytes ▸ two.encoded))
  · rintro rfl
    have bytes : a.2.bytes = b.2.bytes := Except.ok.inj (one.encoded.symm.trans two.encoded)
    obtain ⟨keys,table,stored,_,mirrors⟩ := kept.tables first.1 inside
    have entry {c : Nat × Handle} (given : Given store first c) : table.entries[c.2.slot]? = some c.2.bytes := by
      have key := given.key
      rw [Store.key?,stored,Option.bind_some] at key
      rw [← Store.holds_key mirrors.holds,key,Option.bind_some,given.stored]
    have slot : a.2.slot = b.2.slot :=
      (List.getElem?_inj (List.getElem?_eq_some_iff.mp (entry one)).1 mirrors.once).mp
        ((entry one).trans (bytes ▸ (entry two).symm))
    exact Option.some.inj (one.key.symm.trans (slot ▸ two.key))

-- What a run of calls on several tables comes to, with the answer to each call, by its
-- position.
structure Identified (count : Nat) (calls : List (Nat × Marking)) (answers : List (Except EncodingError (Nat × Handle)))
    (store : Store) (pool : Pool) : Prop where
  length : answers.length = calls.length
  same : ∀ (i j : Nat) (a b : Nat × Handle), answers[i]? = some (.ok a) → answers[j]? = some (.ok b) →
    (a.1 = b.1 ↔ calls[i]? = calls[j]?) ∧ (a.2.same b.2 ↔ calls[i]? = calls[j]?)
  decoded : ∀ (i owner : Nat) (m : Marking) (given : Nat × Handle),
    calls[i]? = some (owner,m) → answers[i]? = some (.ok given) →
    store.bytes? given.1 = some given.2.bytes ∧ m.encode = .ok given.2.bytes ∧
      given.2.marking = .ok m ∧ AtomTable.decode given.2.bytes = m.table
  refused : ∀ (i owner : Nat) (m : Marking) (flaw : EncodingError),
    calls[i]? = some (owner,m) → (answers[i]? = some (.error flaw) ↔ m.encode = .error flaw)
  size : ∀ owner < count, ∃ keys table, store.tables[owner]? = some keys ∧ pool.table? owner = some table ∧
    keys.length = (interned owner calls).toFinset.card ∧ table.size = (interned owner calls).toFinset.card
  unchanged : ∀ owner < count, ∀ (m : Marking) (flaw : EncodingError), m.encode = .error flaw →
    store.handle owner m = some (.quiet (.error flaw,store)) ∧ pool.intern owner m = some (.quiet (.error flaw))

theorem kept_identified (kept : Kept count calls answers store pool) (known : ∀ call ∈ calls, call.1 < count) :
    Identified count calls answers store pool := by
  have answered (i : Nat) (answer : Except EncodingError (Nat × Handle)) (there : answers[i]? = some answer) :
      ∃ call, calls[i]? = some call ∧ call ∈ calls ∧ Answered store call answer := by
    obtain ⟨inside,rfl⟩ := List.getElem?_eq_some_iff.mp there
    have below : i < calls.length := kept.answered.length_eq ▸ inside
    exact ⟨calls[i],List.getElem?_eq_getElem below,List.getElem_mem below,kept.answered.get below inside⟩
  constructor
  case length => exact kept.answered.length_eq.symm
  case same =>
    intro i j a b one two
    obtain ⟨first,call,member,one⟩ := answered i _ one
    obtain ⟨second,other,_,two⟩ := answered j _ two
    have unique := given_unique kept (known first member) one two
    rw [given_same kept one two,unique,call,other,Option.some.injEq]
    exact ⟨.rfl,.rfl⟩
  case decoded =>
    intro i owner m given called there
    obtain ⟨call,found,_,here⟩ := answered i _ there
    cases called.symm.trans found
    exact ⟨here.stored,here.encoded,Marking.decode_encoded here.encoded,Marking.decodeTable_exact here.encoded⟩
  case refused =>
    intro i owner m flaw called
    have inside : i < answers.length := kept.answered.length_eq ▸ (List.getElem?_eq_some_iff.mp called).1
    obtain ⟨call,found,_,here⟩ := answered i _ (List.getElem?_eq_getElem inside)
    cases called.symm.trans found
    rw [List.getElem?_eq_getElem inside,Option.some.injEq]
    cases answer : answers[i] with
    | error reason =>
      rw [answer] at here
      rw [Except.error.injEq,show m.encode = .error reason from here,Except.error.injEq]
    | ok given =>
      rw [answer] at here
      rw [show m.encode = _ from here.encoded]
      simp
  case size =>
    intro owner inside
    obtain ⟨keys,table,stored,tabled,mirrors⟩ := kept.tables owner inside
    have size := mirrors_size mirrors
    exact ⟨keys,table,stored,tabled,(Store.holds_length mirrors.holds).trans size,size⟩
  case unchanged =>
    intro owner inside m flaw refused
    obtain ⟨keys,table,stored,tabled,mirrors⟩ := kept.tables owner inside
    exact ⟨by rw [Store.handle_exact stored mirrors.holds,refused],by rw [Pool.intern_exact tabled,refused]⟩

theorem run_identified (count : Nat) (calls : List (Nat × Marking)) (known : ∀ call ∈ calls, call.1 < count) :
    ∃ answers store pool, (Store.fresh count).run calls = some (answers.map (Except.map Prod.fst),store) ∧
      (Pool.fresh count).run calls = some (answers.map (Except.map Prod.snd),pool) ∧
      Identified count calls answers store pool := by
  obtain ⟨answers,store,pool,ran,ran',kept⟩ := kept_run (kept_fresh count) calls known
  exact ⟨answers,store,pool,ran,ran',kept_identified kept known⟩

-- One marking in two tables and twice in one, the empty marking, and one that is refused.
def sharedCalls : List (Nat × Marking) :=
  [(0,⟨[⟨0,1⟩,⟨3,2⟩],by unfold Canonical; decide⟩),(1,.empty),(0,⟨[⟨4,-1⟩],by unfold Canonical; decide⟩),
    (0,.empty),(1,⟨[⟨0,1⟩,⟨3,2⟩],by unfold Canonical; decide⟩),(0,⟨[⟨0,1⟩,⟨3,2⟩],by unfold Canonical; decide⟩)]

theorem run_identified_shared : (∀ call ∈ sharedCalls, call.1 < 2) ∧
    ((Store.fresh 2).run sharedCalls).map Prod.fst =
      some [.ok 0,.ok 1,.error (.negative 4 (-1)),.ok 2,.ok 3,.ok 0] ∧
    ∃ answers store pool, (Store.fresh 2).run sharedCalls = some (answers.map (Except.map Prod.fst),store) ∧
      (Pool.fresh 2).run sharedCalls = some (answers.map (Except.map Prod.snd),pool) ∧
      Identified 2 sharedCalls answers store pool := by
  have known : ∀ call ∈ sharedCalls, call.1 < 2 := by decide
  exact ⟨known,by decide,run_identified 2 sharedCalls known⟩

end Handle

end TimePetri
