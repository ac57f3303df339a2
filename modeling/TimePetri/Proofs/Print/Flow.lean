import TimePetri.Proofs.Net.Sound
import TimePetri.Script.Print

namespace TimePetri

theorem checked_inside (operation : Operation) (n : Int) (low : -wordLimit ≤ n) (high : n < wordLimit) :
    checked operation n = .ok (Int64.ofInt n) := by
  unfold checked word?
  rw [if_pos ⟨low,high⟩]

theorem ofInt_inside (n : Int) (low : -wordLimit ≤ n) (high : n < wordLimit) : (Int64.ofInt n).toInt = n := by
  obtain ⟨w,found,same⟩ := checked_fits .add n low high
  rw [checked_inside _ _ low high] at found
  cases found
  exact same

namespace Row

variable {row : Row} {places p : Nat}

-- What the tables say a transition puts back into a place. The tables are built from
-- their difference, so that nothing keeps the sum itself within a word.
def produced (row : Row) (p : Nat) : Int := row.delta.count p - row.pre.count p

def flow (row : Row) (p : Nat) : Net.Flow :=
  ⟨p,row.cap.get p,Int64.ofInt (row.guard.count p + row.pre.count p),Int64.ofInt (-row.pre.count p),Int64.ofInt (row.produced p)⟩

structure Flows (row : Row) (p : Nat) : Prop where
  cap : (row.flow p).cap.toInt = row.cap.count p
  read : (row.flow p).read.toInt = row.guard.count p + row.pre.count p
  consumed : (row.flow p).consumed.toInt = -row.pre.count p
  produced : (row.flow p).produced.toInt = row.delta.count p - row.pre.count p

theorem consumed_fits (sound : row.Sound places) (p : Nat) :
    negWord (row.pre.get p) = .ok (row.flow p).consumed ∧ (row.flow p).consumed.toInt = -row.pre.count p := by
  have taken := sound.pre p
  have guarded := sound.guarded p
  have limit := row.guard.count_range p
  unfold wordLimit at limit
  have low : -wordLimit ≤ -row.pre.count p := by unfold wordLimit; omega
  have high : -row.pre.count p < wordLimit := by unfold wordLimit; omega
  exact ⟨checked_inside _ _ low high,ofInt_inside _ low high⟩

theorem read_fits (sound : row.Sound places) (p : Nat) :
    subWords (row.guard.get p) (row.flow p).consumed = .ok (row.flow p).read ∧
      (row.flow p).read.toInt = row.guard.count p + row.pre.count p := by
  have taken := sound.pre p
  have guarded := sound.guarded p
  have limit := row.guard.count_range p
  unfold wordLimit at limit
  have low : -wordLimit ≤ row.guard.count p + row.pre.count p := by unfold wordLimit; omega
  have high : row.guard.count p + row.pre.count p < wordLimit := by unfold wordLimit; omega
  refine ⟨?_,ofInt_inside _ low high⟩
  unfold subWords
  rw [(consumed_fits sound p).2,Int.sub_neg]
  exact checked_inside _ _ low high

theorem produced_nonneg (sound : row.Sound places) (p : Nat) : 0 ≤ row.produced p := by
  have produced := sound.produced p
  unfold Row.produced
  omega

theorem produced_sum (sound : row.Sound places) (p : Nat) :
    addWords (row.delta.get p) (row.flow p).consumed = checked .add (row.produced p) := by
  unfold addWords
  rw [(consumed_fits sound p).2]
  rfl

theorem flow_parts (sound : row.Sound places) (p : Nat) (fits : row.produced p < wordLimit) : Flows row p := by
  have nonneg := produced_nonneg sound p
  refine ⟨rfl,(read_fits sound p).2,(consumed_fits sound p).2,?_⟩
  exact ofInt_inside _ (by unfold wordLimit; omega) fits

theorem flowAt_exact (sound : row.Sound places) (p : Nat) :
    Net.flowAt row.guard row.cap row.pre row.delta p =
      if row.produced p < wordLimit then .ok (row.flow p) else .error (.overflow .add) := by
  have nonneg := produced_nonneg sound p
  unfold Net.flowAt
  rw [(consumed_fits sound p).1,ok_bind,(read_fits sound p).1,ok_bind,produced_sum sound p]
  split
  · next fits =>
    rw [checked_inside _ _ (by unfold wordLimit; omega) fits]
    rfl
  · next exceeds =>
    rw [(checked_error .add (row.produced p) _).mpr ⟨rfl,.inr (by omega)⟩]
    rfl

def touched (row : Row) : List Nat := Net.touched [row.guard,row.cap,row.pre,row.delta]

end Row

namespace Net

theorem touchedFrom_member (markings : List Marking) (start : List Nat) (p : Nat) :
    p ∈ markings.foldl (fun places m => Priority.union places m.places) start ↔ p ∈ start ∨ ∃ m ∈ markings, p ∈ m.places := by
  induction markings generalizing start with
  | nil => simp
  | cons m rest ih =>
    rw [List.foldl_cons,ih,Priority.union_member]
    simp only [List.mem_cons,exists_eq_or_imp,or_assoc]

theorem touchedFrom_increasing (markings : List Marking) (start : List Nat) (increasing : Priority.Increasing start) :
    Priority.Increasing (markings.foldl (fun places m => Priority.union places m.places) start) := by
  induction markings generalizing start with
  | nil => exact increasing
  | cons m rest ih => exact ih _ (Priority.union_increasing _ _ increasing (List.pairwise_map.mpr m.canonical.1))

end Net

namespace Row

variable {row : Row} {places p : Nat}

theorem touched_increasing (row : Row) : Priority.Increasing row.touched :=
  Net.touchedFrom_increasing _ _ Priority.increasing_nil

theorem touched_member (row : Row) (p : Nat) :
    p ∈ row.touched ↔ p ∈ row.guard.places ∨ p ∈ row.cap.places ∨ p ∈ row.pre.places ∨ p ∈ row.delta.places := by
  refine (Net.touchedFrom_member _ _ p).trans ?_
  simp

theorem touched_inside (sound : row.Sound places) (member : p ∈ row.touched) : p < places := by
  simp only [touched_member,Marking.places_member] at member
  rcases member with here | here | here | here
  · exact sound.guardWithin p here
  · exact sound.capWithin p here
  · exact sound.preWithin p here
  · exact sound.deltaWithin p here

theorem untouched (row : Row) (p : Nat) (missing : p ∉ row.touched) :
    row.guard.count p = 0 ∧ row.cap.count p = 0 ∧ row.pre.count p = 0 ∧ row.delta.count p = 0 := by
  simpa [touched_member,Marking.places_member] using missing

end Row

end TimePetri
