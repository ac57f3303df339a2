import TimePetri.Proofs.Handle.Interned
import TimePetri.Proofs.Marking.Algebra
import TimePetri.Proofs.Net.Firing

namespace TimePetri

namespace Handle

variable {count i owner : Nat} {calls : List (Nat × Marking)} {answers : List (Except EncodingError (Nat × Handle))}
  {store : Store} {pool : Pool} {m : Marking} {bytes : List UInt8}

-- A table that is called with both markings gives one handle for them, whatever the tables
-- are called with besides.
def Joint (one other : Marking) : Prop :=
  ∀ (count : Nat) (calls : List (Nat × Marking)), (∀ call ∈ calls, call.1 < count) →
    ∃ (answers : List (Except EncodingError (Nat × Handle))) (store : Store) (pool : Pool),
    (Store.fresh count).run calls = some (answers.map (Except.map Prod.fst),store) ∧
    (Pool.fresh count).run calls = some (answers.map (Except.map Prod.snd),pool) ∧
    ∀ (owner i j : Nat), calls[i]? = some (owner,one) → calls[j]? = some (owner,other) →
      ∃ a b : Nat × Handle, answers[i]? = some (.ok a) ∧ answers[j]? = some (.ok b) ∧ a.1 = b.1 ∧ a.2.same b.2

theorem identified_given (identified : Identified count calls answers store pool) (called : calls[i]? = some (owner,m))
    (encoded : m.encode = .ok bytes) : ∃ given, answers[i]? = some (.ok given) := by
  have inside : i < answers.length := identified.length ▸ (List.getElem?_eq_some_iff.mp called).1
  have there : answers[i]? = some answers[i] := List.getElem?_eq_getElem inside
  cases answer : answers[i] with
  | ok given => exact ⟨given,there.trans (congrArg some answer)⟩
  | error flaw =>
    have refused := (identified.refused i owner m flaw called).mp (there.trans (congrArg some answer))
    cases encoded.symm.trans refused

theorem joint_same (encoded : m.encode = .ok bytes) : Joint m m := by
  intro count calls known
  obtain ⟨answers,store,pool,ran,ran',kept⟩ := kept_run (kept_fresh count) calls known
  have identified := kept_identified kept known
  refine ⟨answers,store,pool,ran,ran',fun owner i j one two => ?_⟩
  obtain ⟨a,first⟩ := identified_given identified one encoded
  obtain ⟨b,second⟩ := identified_given identified two encoded
  have same := identified.same i j a b first second
  exact ⟨a,b,first,second,same.1.mpr (one.trans two.symm),same.2.mpr (one.trans two.symm)⟩

end Handle

namespace Net

open Marking

-- Transitions are fired one after the other, whether they are enabled or not.
def fireAll (net : Net) (m : Marking) (ts : List Nat) : Except Fault Marking := ts.foldlM net.fire m

def fireTable (net : Net) (table : AtomTable) (t : Nat) : Except Fault AtomTable := do
  table.add (← fetch net.delta t).table

def fireTables (net : Net) (table : AtomTable) (ts : List Nat) : Except Fault AtomTable := ts.foldlM net.fireTable table

def change (net : Net) (ts : List Nat) (p : Nat) : Int := (ts.map fun t => (net.row t).delta.count p).sum

variable {net : Net} {m next last again : Marking} {t p : Nat} {ts others front : List Nat}

theorem change_nil (net : Net) (p : Nat) : net.change [] p = 0 := rfl

theorem change_cons (net : Net) (t : Nat) (ts : List Nat) (p : Nat) :
    net.change (t :: ts) p = (net.row t).delta.count p + net.change ts p := List.sum_cons

theorem change_same (same : ∀ t, others.count t = ts.count t) (p : Nat) : net.change others p = net.change ts p :=
  ((List.perm_iff_count.mpr same).map _).sum_eq

theorem fire_row (inside : t < net.delta.size) (m : Marking) : net.fire m t = m.add (net.row t).delta := by
  rw [fire,fetch_inside _ _ inside,ok_bind,row,Array.getElem?_eq_getElem inside,Option.getD_some]

theorem fire_inDelta (fired : net.fire m t = .ok last) : t < net.delta.size := by
  obtain ⟨delta,fetched,_⟩ := bind_ok.mp fired
  exact (Array.getElem?_eq_some_iff.mp ((fetch_ok _ _ _).mp fetched)).1

theorem fireTable_exact (net : Net) (m : Marking) (t : Nat) : net.fireTable m.table t = table <$> net.fire m t := by
  unfold fireTable fire
  cases fetch net.delta t with
  | error fault => rfl
  | ok delta => exact addTable_exact m delta

theorem fireTables_exact (net : Net) (m : Marking) (ts : List Nat) :
    net.fireTables m.table ts = table <$> net.fireAll m ts := by
  unfold fireTables fireAll
  induction ts generalizing m with
  | nil => rfl
  | cons t ts ih =>
    rw [List.foldlM_cons,List.foldlM_cons,fireTable_exact]
    cases net.fire m t with
    | error fault => rfl
    | ok next => exact ih next

theorem fireAll_cons : net.fireAll m (t :: ts) = net.fire m t >>= fun next => net.fireAll next ts := List.foldlM_cons

theorem fireAll_outcome (inside : ∀ t ∈ ts, t < net.delta.size) (m : Marking) :
    (∃ last, net.fireAll m ts = .ok last ∧ ∀ p, last.count p = m.count p + net.change ts p) ∧
        (∀ front, front <+: ts → ∀ p, Fits (m.count p + net.change front p)) ∨
      net.fireAll m ts = .error (.overflow .add) ∧
        ∃ front, front <+: ts ∧ ∃ p, ¬ Fits (m.count p + net.change front p) := by
  induction ts generalizing m with
  | nil =>
    refine .inl ⟨⟨m,rfl,fun p => (Int.add_zero _).symm⟩,fun front before p => ?_⟩
    rw [List.prefix_nil.mp before,change_nil,Int.add_zero]
    exact m.count_range p
  | cons t ts ih =>
    obtain ⟨here,later⟩ := List.forall_mem_cons.mp inside
    rw [fireAll_cons,fire_row here]
    rcases m.add_exact (net.row t).delta with ⟨next,added,counts⟩ | ⟨failed,p,exceeds⟩
    -- Counts behind the first firing are counts behind fronts that begin with it.
    · have shifted : ∀ others p, next.count p + net.change others p = m.count p + net.change (t :: others) p := by
        intro others p
        rw [counts,change_cons,Int.add_assoc]
      rw [added,ok_bind]
      rcases ih later next with ⟨⟨last,fired,ends⟩,fits⟩ | ⟨failed,front,before,p,exceeds⟩
      · refine .inl ⟨⟨last,fired,fun p => (ends p).trans (shifted ts p)⟩,fun front before p => ?_⟩
        rcases List.prefix_cons_iff.mp before with rfl | ⟨shorter,rfl,within⟩
        · rw [change_nil,Int.add_zero]
          exact m.count_range p
        · rw [← shifted]
          exact fits shorter within p
      · exact .inr ⟨failed,t :: front,(List.prefix_cons_inj t).mpr before,p,shifted front p ▸ exceeds⟩
    · rw [failed,error_bind]
      refine .inr ⟨rfl,[t],⟨ts,rfl⟩,p,?_⟩
      rwa [change_cons,change_nil,Int.add_zero]

theorem fireAll_inDelta (fired : net.fireAll m ts = .ok last) : ∀ t ∈ ts, t < net.delta.size := by
  induction ts generalizing m with
  | nil => exact nofun
  | cons t ts ih =>
    obtain ⟨next,first,rest⟩ := bind_ok.mp (fireAll_cons.symm.trans fired)
    exact List.forall_mem_cons.mpr ⟨fire_inDelta first,ih rest⟩

theorem fireAll_counts (fired : net.fireAll m ts = .ok last) (p : Nat) : last.count p = m.count p + net.change ts p := by
  rcases fireAll_outcome (fireAll_inDelta fired) m with ⟨⟨ended,same,counts⟩,_⟩ | ⟨failed,_⟩
  · cases fired.symm.trans same
    exact counts p
  · cases fired.symm.trans failed

-- What a run from a marking comes to.
structure Runs (net : Net) (m : Marking) (ts : List Nat) (last : Marking) : Prop where
  inside : ∀ t ∈ ts, t < net.delta.size
  tables : net.fireTables m.table ts = .ok last.table
  canonical : Canonical last.table.toList
  counts : ∀ p, last.count p = m.count p + net.change ts p
  reordered : ∀ others again, (∀ t, others.count t = ts.count t) → net.fireAll m others = .ok again →
    again = last ∧ ∀ bytes, last.encode = .ok bytes → Handle.Joint last again

theorem fireAll_runs (fired : net.fireAll m ts = .ok last) : Runs net m ts last := by
  constructor
  case inside => exact fireAll_inDelta fired
  case tables => rw [fireTables_exact,fired]; rfl
  case canonical => exact last.canonical
  case counts => exact fireAll_counts fired
  case reordered =>
    intro others again same refired
    obtain rfl : last = again := ext_count _ _ fun p => by
      rw [fireAll_counts fired,fireAll_counts refired,change_same same]
    exact ⟨rfl,fun bytes => Handle.joint_same⟩

theorem state_equation (net : Net) (m : Marking) (ts : List Nat) :
    (∀ last, net.fireAll m ts = .ok last → Runs net m ts last) ∧
      ((∀ t ∈ ts, t < net.delta.size) →
        (∃ last, net.fireAll m ts = .ok last) ∧ (∀ front, front <+: ts → ∀ p, Fits (m.count p + net.change front p)) ∨
          net.fireAll m ts = .error (.overflow .add) ∧
            ∃ front, front <+: ts ∧ ∃ p, ¬ Fits (m.count p + net.change front p)) := by
  refine ⟨fun last => fireAll_runs,fun inside => ?_⟩
  exact (fireAll_outcome inside m).imp_left fun ⟨⟨last,fired,_⟩,fits⟩ => ⟨⟨last,fired⟩,fits⟩

-- Two transitions that undo each other. In one order a place comes and goes, in the other one
-- it holds less than nothing for a while.
def exchange : Net :=
  ⟨"",#["p","q"],#["",""],#["t","u"],#["",""],#[.unconstrained,.unconstrained],#[.empty,.empty],#[.empty,.empty],
    #[Marking.empty.set 0 (-1),Marking.empty.set 1 (-1)],
    #[(Marking.empty.set 0 (-1)).set 1 1,(Marking.empty.set 0 1).set 1 (-1)],Marking.empty.set 0 1,#[[],[]]⟩

theorem state_equation_exchange :
    exchange.fireAll (Marking.empty.set 0 1) [0,1,0] = .ok (Marking.empty.set 1 1) ∧
      exchange.fireAll (Marking.empty.set 0 1) [1,0,0] = .ok (Marking.empty.set 1 1) ∧
      (∀ t, [1,0,0].count t = [0,1,0].count t) ∧
      Runs exchange (Marking.empty.set 0 1) [0,1,0] (Marking.empty.set 1 1) ∧
      Handle.Joint (Marking.empty.set 1 1) (Marking.empty.set 1 1) := by
  have fired : exchange.fireAll (Marking.empty.set 0 1) [0,1,0] = .ok (Marking.empty.set 1 1) := by decide
  have refired : exchange.fireAll (Marking.empty.set 0 1) [1,0,0] = .ok (Marking.empty.set 1 1) := by decide
  have same : ∀ t, [1,0,0].count t = [0,1,0].count t := List.perm_iff_count.mp (by decide)
  have runs := (state_equation exchange (Marking.empty.set 0 1) [0,1,0]).1 _ fired
  have encoded : (Marking.empty.set 1 1).encode = .ok [0,0,0,1,0,0,0,1] := by decide
  exact ⟨fired,refired,same,runs,(runs.reordered _ _ same refired).2 _ encoded⟩

end Net

end TimePetri
