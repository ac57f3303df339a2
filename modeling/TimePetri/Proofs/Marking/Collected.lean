import TimePetri.Proofs.Marking.Algebra

namespace TimePetri

namespace AtomTable

variable {pairs others : List (Nat × Int64)} {values further : List Int}

def given (place : Nat) (pairs : List (Nat × Int64)) : List Int := (pairs.filter (·.1 = place)).map (·.2.toInt)

-- The greatest and the least of the values that are not zero, and zero if there is none.
def greatest (values : List Int) : Int := (values.filter (· ≠ 0)).max?.getD 0

def least (values : List Int) : Int := (values.filter (· ≠ 0)).min?.getD 0

theorem given_permuted (same : pairs.Perm others) (place : Nat) : (given place pairs).Perm (given place others) :=
  (same.filter _).map _

theorem given_nonneg (nonneg : ∀ pair ∈ pairs, 0 ≤ pair.2) (place : Nat) : ∀ n ∈ given place pairs, 0 ≤ n := by
  intro n member
  obtain ⟨pair,among,rfl⟩ := List.mem_map.mp member
  exact Int64.le_iff_toInt_le.mp (nonneg pair (List.mem_filter.mp among).1)

theorem given_cons (place : Nat) (pair : Nat × Int64) (rest : List (Nat × Int64)) :
    given place (pair :: rest) = if pair.1 = place then pair.2.toInt :: given place rest else given place rest := by
  unfold given
  by_cases here : pair.1 = place <;> simp [here]

theorem given_sum (place : Nat) (pair : Nat × Int64) (rest : List (Nat × Int64)) :
    (given place (pair :: rest)).sum = (if place = pair.1 then pair.2.toInt else 0) + (given place rest).sum := by
  rw [given_cons]
  by_cases here : pair.1 = place
  · rw [if_pos here,if_pos here.symm,List.sum_cons]
  · rw [if_neg here,if_neg (Ne.symm here),Int.zero_add]

theorem greatest_permuted (same : values.Perm further) : greatest values = greatest further := by
  have top : (values.filter (· ≠ 0)).max? = (further.filter (· ≠ 0)).max? := by
    refine Option.ext fun top => ?_
    simp only [List.max?_eq_some_iff,(same.filter (· ≠ 0)).mem_iff]
  rw [greatest,greatest,top]

theorem least_permuted (same : values.Perm further) : least values = least further := by
  have bottom : (values.filter (· ≠ 0)).min? = (further.filter (· ≠ 0)).min? := by
    refine Option.ext fun bottom => ?_
    simp only [List.min?_eq_some_iff,(same.filter (· ≠ 0)).mem_iff]
  rw [least,least,bottom]

def overall (pick : Int → Int → Int) (values : List Int) : Int :=
  match values.filter (· ≠ 0) with
  | [] => 0
  | first :: rest => rest.foldl pick first

theorem greatest_overall (values : List Int) : greatest values = overall max values := by
  unfold greatest overall
  cases values.filter (· ≠ 0) <;> rfl

theorem least_overall (values : List Int) : least values = overall min values := by
  unfold least overall
  cases values.filter (· ≠ 0) <;> rfl

def picked (pick : Int → Int → Int) (held value : Int) : Int :=
  if value = 0 then held else if held = 0 then value else pick held value

variable {pick : Int → Int → Int}

theorem overall_single (value : Int) : overall pick [value] = value := by
  by_cases none : value = 0 <;> simp [overall,none]

theorem overall_picked (one : ∀ a b, pick a b = a ∨ pick a b = b) (held value : Int) (rest : List Int) :
    overall pick (held :: value :: rest) = overall pick (picked pick held value :: rest) := by
  unfold overall picked
  by_cases none : value = 0
  · rw [if_pos none,List.filter_cons,List.filter_cons,List.filter_cons]
    simp [none]
  · by_cases absent : held = 0
    · simp [none,absent]
    · have present : pick held value ≠ 0 := by rcases one held value with same | same <;> rwa [same]
      simp [none,absent,present]

end AtomTable

open AtomTable (given greatest least overall picked given_cons given_sum given_nonneg)

variable {m next : Marking} {pairs : List (Nat × Int64)} {fault : Fault}

namespace Marking

def gather (m : Marking) (pairs : List (Nat × Int64)) : Except Fault Marking :=
  pairs.foldlM (fun m pair => m.addAt pair.1 pair.2) m

theorem gather_count (gathered : m.gather pairs = .ok next) (p : Nat) : next.count p = m.count p + (given p pairs).sum := by
  induction pairs generalizing m with
  | nil =>
    cases gathered
    exact (Int.add_zero _).symm
  | cons pair rest ih =>
    obtain ⟨middle,added,later⟩ := bind_ok.mp gathered
    rw [ih later,addAt_count added,given_sum,Int.add_assoc]

theorem gather_error (failed : m.gather pairs = .error fault) : fault = .overflow .add := by
  induction pairs generalizing m with
  | nil => cases failed
  | cons pair rest ih =>
    rw [gather,List.foldlM_cons] at failed
    cases added : m.addAt pair.1 pair.2 with
    | error cause =>
      rw [added] at failed
      cases failed
      exact (addAt_error m pair.1 pair.2 _ added).1
    | ok middle =>
      rw [added] at failed
      exact ih failed

-- Where nothing is taken away no sum on the way is larger than the last one.
theorem gather_fits (nonneg : ∀ pair ∈ pairs, 0 ≤ pair.2) (fits : ∀ p, m.count p + (given p pairs).sum < wordLimit) :
    ∃ next, m.gather pairs = .ok next := by
  induction pairs generalizing m with
  | nil => exact ⟨m,rfl⟩
  | cons pair rest ih =>
    have later : ∀ other ∈ rest, 0 ≤ other.2 := fun other member => nonneg other (List.mem_cons_of_mem _ member)
    have more : 0 ≤ pair.2.toInt := Int64.le_iff_toInt_le.mp (nonneg pair (by simp))
    have rests : 0 ≤ (given pair.1 rest).sum := List.sum_nonneg (given_nonneg later pair.1)
    have here := fits pair.1
    rw [given_sum,if_pos rfl] at here
    have range := m.count_range pair.1
    obtain ⟨middle,added⟩ := addAt_fits m pair.1 pair.2 (by omega) (by omega)
    rw [gather,List.foldlM_cons,added]
    refine ih later fun p => ?_
    have whole := fits p
    rw [given_sum] at whole
    rw [addAt_count added]
    omega

theorem gather_refused (nonneg : ∀ pair ∈ pairs, 0 ≤ pair.2) :
    m.gather pairs = .error fault ↔ fault = .overflow .add ∧ ∃ p, wordLimit ≤ m.count p + (given p pairs).sum := by
  constructor
  · intro failed
    refine ⟨gather_error failed,?_⟩
    by_contra fits
    obtain ⟨next,gathered⟩ := gather_fits nonneg fun p => Int.lt_of_not_ge fun exceeds => fits ⟨p,exceeds⟩
    rw [gathered] at failed
    cases failed
  · rintro ⟨rfl,p,exceeds⟩
    cases gathered : m.gather pairs with
    | error fault => rw [gather_error gathered]
    | ok next =>
      have range := next.count_range p
      rw [gather_count gathered] at range
      omega

def updateAll (pick : Int64 → Int64 → Int64) (m : Marking) (calls : List (Nat × Int64)) : Marking :=
  calls.foldl (fun m call => update pick m call.1 call.2) m

theorem update_count (pick : Int64 → Int64 → Int64) (exact : Int → Int → Int)
    (same : ∀ a b, (pick a b).toInt = exact a.toInt b.toInt) (m : Marking) (p : Nat) (value : Int64) (q : Nat) :
    (update pick m p value).count q = if q = p then picked exact (m.count p) value.toInt else m.count q := by
  rw [(denotes_exact _).mp (update_denotes pick exact same m p value) q]
  unfold picked
  by_cases none : value = 0
  · subst none
    by_cases here : q = p <;> simp [here]
  · have present := mt (word_zero value).mpr none
    by_cases here : q = p <;> simp [here,none,present]

theorem updateAll_count (pick : Int64 → Int64 → Int64) (exact : Int → Int → Int)
    (same : ∀ a b, (pick a b).toInt = exact a.toInt b.toInt) (one : ∀ a b, exact a b = a ∨ exact a b = b)
    (m : Marking) (calls : List (Nat × Int64)) (p : Nat) :
    (updateAll pick m calls).count p = overall exact (m.count p :: given p calls) := by
  induction calls generalizing m with
  | nil => exact (AtomTable.overall_single _).symm
  | cons call rest ih =>
    rw [updateAll,List.foldl_cons]
    refine (ih _).trans ?_
    rw [update_count pick exact same,given_cons]
    by_cases here : p = call.1
    · rw [if_pos here,if_pos here.symm,AtomTable.overall_picked one,here]
    · rw [if_neg here,if_neg (Ne.symm here)]

theorem updateAll_exact {pick : Int64 → Int64 → Int64} {call : AtomTable → Nat → Int64 → Except Fault AtomTable}
    (each : ∀ (m : Marking) place value, call m.table place value = .ok (update pick m place value).table) (m : Marking)
    (calls : List (Nat × Int64)) :
    calls.foldlM (fun table given => call table given.1 given.2) m.table = .ok (updateAll pick m calls).table := by
  induction calls generalizing m with
  | nil => rfl
  | cons first rest ih =>
    rw [List.foldlM_cons,each,ok_bind]
    exact ih _

end Marking

namespace AtomTable

def raiseAll (table : AtomTable) (calls : List (Nat × Int64)) : Except Fault AtomTable :=
  calls.foldlM (fun table call => table.raise call.1 call.2) table

def lowerAll (table : AtomTable) (calls : List (Nat × Int64)) : Except Fault AtomTable :=
  calls.foldlM (fun table call => table.lower call.1 call.2) table

theorem raiseAll_exact (m : Marking) (calls : List (Nat × Int64)) :
    ∃ next : Marking, m.table.raiseAll calls = .ok next.table ∧ ∀ p, next.count p = greatest (m.count p :: given p calls) := by
  refine ⟨_,Marking.updateAll_exact Marking.raiseTable_exact m calls,fun p => ?_⟩
  rw [greatest_overall]
  exact Marking.updateAll_count max max Marking.max_exact (fun a b => by omega) m calls p

theorem lowerAll_exact (m : Marking) (calls : List (Nat × Int64)) :
    ∃ next : Marking, m.table.lowerAll calls = .ok next.table ∧ ∀ p, next.count p = least (m.count p :: given p calls) := by
  refine ⟨_,Marking.updateAll_exact Marking.lowerTable_exact m calls,fun p => ?_⟩
  rw [least_overall]
  exact Marking.updateAll_count min min Marking.min_exact (fun a b => by omega) m calls p

theorem calls_permuted {all : AtomTable → List (Nat × Int64) → Except Fault AtomTable} {result : List Int → Int}
    (exact : ∀ (m : Marking) calls, ∃ next : Marking, all m.table calls = .ok next.table ∧
      ∀ p, next.count p = result (m.count p :: given p calls))
    (permuted : ∀ {values further : List Int}, values.Perm further → result values = result further)
    {start : AtomTable} (canonical : Canonical start.toList) (same : pairs.Perm others) :
    ∃ table, all start pairs = .ok table ∧ all start others = .ok table ∧ Canonical table.toList ∧
      ∀ p, table.count p = result (start.count p :: given p pairs) := by
  obtain ⟨m,rfl⟩ := canonical_marking canonical
  obtain ⟨next,done,counts⟩ := exact m pairs
  obtain ⟨further,again,others⟩ := exact m others
  have equal : further = next := Marking.ext_count _ _ fun p => by
    rw [others,counts]
    exact (permuted ((given_permuted same p).cons _)).symm
  exact ⟨next.table,done,equal ▸ again,next.canonical,counts⟩

theorem collect_ok {table : AtomTable} (collected : collect pairs = .ok table) :
    ∃ m : Marking, m.table = table ∧ ∀ p, m.count p = (given p pairs).sum := by
  rw [Marking.collect_exact] at collected
  obtain ⟨m,gathered,same⟩ := map_ok.mp collected
  refine ⟨m,same,fun p => ?_⟩
  rw [Marking.gather_count gathered,Marking.count_empty,Int.zero_add]

theorem collect_refused (nonneg : ∀ pair ∈ pairs, 0 ≤ pair.2) (fault : Fault) :
    collect pairs = .error fault ↔ fault = .overflow .add ∧ ∃ p, wordLimit ≤ (given p pairs).sum := by
  rw [Marking.collect_exact,map_error]
  refine (Marking.gather_refused nonneg).trans ?_
  simp only [Marking.count_empty,Int.zero_add]

theorem collect_permuted :
    (∀ pairs others : List (Nat × Int64), pairs.Perm others →
      (∀ table other, collect pairs = .ok table → collect others = .ok other →
        table = other ∧ Canonical table.toList ∧ ∀ p, table.count p = (given p pairs).sum) ∧
      (∀ fault, collect pairs = .error fault → fault = .overflow .add) ∧
      ((∀ pair ∈ pairs, 0 ≤ pair.2) → ∀ fault, (collect pairs = .error fault ↔ collect others = .error fault) ∧
        (collect pairs = .error fault ↔ fault = .overflow .add ∧ ∃ p, wordLimit ≤ (given p pairs).sum))) ∧
    ∀ start : AtomTable, Canonical start.toList → ∀ calls others : List (Nat × Int64), calls.Perm others →
      (∃ table, start.raiseAll calls = .ok table ∧ start.raiseAll others = .ok table ∧ Canonical table.toList ∧
        ∀ p, table.count p = greatest (start.count p :: given p calls)) ∧
      ∃ table, start.lowerAll calls = .ok table ∧ start.lowerAll others = .ok table ∧ Canonical table.toList ∧
        ∀ p, table.count p = least (start.count p :: given p calls) := by
  refine ⟨fun pairs others same => ⟨fun table other one two => ?_,fun fault failed => ?_,fun nonneg fault => ⟨?_,?_⟩⟩,?_⟩
  · obtain ⟨m,rfl,counts⟩ := collect_ok one
    obtain ⟨n,rfl,further⟩ := collect_ok two
    refine ⟨(Marking.table_exact m n).mpr (Marking.ext_count m n fun p => ?_),m.canonical,counts⟩
    rw [counts,further,(given_permuted same p).sum_eq]
  · rw [Marking.collect_exact,map_error] at failed
    exact Marking.gather_error failed
  · rw [collect_refused nonneg,collect_refused fun pair member => nonneg pair (same.mem_iff.mpr member)]
    simp only [(given_permuted same _).sum_eq]
  · exact collect_refused nonneg fault
  · exact fun start canonical calls others same =>
      ⟨calls_permuted raiseAll_exact greatest_permuted canonical same,calls_permuted lowerAll_exact least_permuted canonical same⟩

-- Atoms that come and go, a sum that is too large in any order, and a negative multiplicity
-- that is raised less than zero.
theorem collect_permuted_cancelled :
    (∃ table, collect [(4,1),(1,2),(4,-1),(1,1)] = .ok table ∧ collect [(1,1),(4,-1),(1,2),(4,1)] = .ok table ∧
      table.count 1 = 3 ∧ table.count 4 = 0) ∧
    collect [(3,1),(0,9000000000000000000),(0,9000000000000000000)] = .error (.overflow .add) ∧
    collect [(0,9000000000000000000),(0,9000000000000000000),(3,1)] = .error (.overflow .add) ∧
    ∃ table, raiseAll #[⟨2,-4⟩] [(2,-7),(5,3),(2,0),(5,8)] = .ok table ∧
      raiseAll #[⟨2,-4⟩] [(5,8),(2,0),(5,3),(2,-7)] = .ok table ∧ table.count 2 = -4 ∧ table.count 5 = 8 := by
  have one : collect [(4,1),(1,2),(4,-1),(1,1)] = .ok #[⟨1,3⟩] := by cbv
  have two : collect [(1,1),(4,-1),(1,2),(4,1)] = .ok #[⟨1,3⟩] := by cbv
  obtain ⟨-,-,counts⟩ := (collect_permuted.1 [(4,1),(1,2),(4,-1),(1,1)] [(1,1),(4,-1),(1,2),(4,1)] (by decide)).1 _ _ one two
  have heaped := (collect_permuted.1 [(3,1),(0,9000000000000000000),(0,9000000000000000000)]
    [(0,9000000000000000000),(0,9000000000000000000),(3,1)] (by decide)).2.2 (by decide) (.overflow .add)
  have failed := heaped.2.mpr ⟨rfl,0,by decide⟩
  obtain ⟨⟨table,first,second,-,raised⟩,_⟩ := collect_permuted.2 #[⟨2,-4⟩] ⟨by decide,by decide⟩ [(2,-7),(5,3),(2,0),(5,8)]
    [(5,8),(2,0),(5,3),(2,-7)] (by decide)
  exact ⟨⟨_,one,two,(counts 1).trans (by decide),(counts 4).trans (by decide)⟩,failed,heaped.1.mp failed,
    table,first,second,(raised 2).trans (by decide),(raised 5).trans (by decide)⟩

-- With a negative one among them it can fail in one order and not in another.
example : collect [(0,9000000000000000000),(0,9000000000000000000),(0,-9000000000000000000)] = .error (.overflow .add) ∧
    collect [(0,9000000000000000000),(0,-9000000000000000000),(0,9000000000000000000)] = .ok #[⟨0,9000000000000000000⟩] := by
  constructor <;> cbv

end AtomTable

end TimePetri
