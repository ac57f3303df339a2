import TimePetri.Proofs.Marking.Merge

namespace TimePetri

variable {m other : Marking} {atoms front back : List Atom} {a : Atom} {flaw : MarkingError} {bytes : List UInt8}

-- What is wrong with an atom behind one of a given place: it is zero, or else not above it.
inductive FlawBehind (previous : Option Nat) (a : Atom) : MarkingError → Prop where
  | zero (nothing : a.mult = 0) : FlawBehind previous a (.zero a.place)
  | unsorted (present : a.mult ≠ 0) (before : Nat) (last : previous = some before) (notAbove : a.place ≤ before) :
      FlawBehind previous a (.unsorted a.place)

def FirstFlaw (atoms : List Atom) (flaw : MarkingError) : Prop :=
  ∃ front a back, atoms = front ++ a :: back ∧ Canonical front ∧ FlawBehind (front.getLast?.map (·.place)) a flaw

namespace Marking

theorem flawBehind_exact (previous : Option Nat) (a : Atom) (rest : List Atom) :
    (∃ flaw, firstFlaw previous (a :: rest) = some flaw ∧ FlawBehind previous a flaw) ∨
      a.mult ≠ 0 ∧ (∀ before ∈ previous, before < a.place) ∧ firstFlaw previous (a :: rest) = firstFlaw (some a.place) rest := by
  rw [firstFlaw]
  by_cases nothing : a.mult = 0
  · rw [if_pos nothing]
    exact .inl ⟨_,rfl,.zero nothing⟩
  · rw [if_neg nothing]
    cases previous with
    | none => exact .inr ⟨nothing,nofun,rfl⟩
    | some before =>
      by_cases notAbove : a.place ≤ before
      · rw [if_pos (by simpa using notAbove)]
        exact .inl ⟨_,rfl,.unsorted nothing before rfl notAbove⟩
      · rw [if_neg (by simpa using notAbove)]
        refine .inr ⟨nothing,fun other same => ?_,rfl⟩
        cases same
        omega

def Follows (previous : Option Nat) (front : List Atom) : Prop :=
  Canonical front ∧ ∀ before ∈ previous, ∀ a ∈ front, before < a.place

theorem firstFlaw_none (previous : Option Nat) (atoms : List Atom) :
    firstFlaw previous atoms = none ↔ Follows previous atoms := by
  refine ⟨firstFlaw_canonical previous atoms,fun follows => ?_⟩
  induction atoms generalizing previous with
  | nil => rfl
  | cons a rest ih =>
    obtain ⟨above,present,tail⟩ := (canonical_cons _ _).mp follows.1
    rcases flawBehind_exact previous a rest with ⟨_,_,zero | ⟨_,before,last,notAbove⟩⟩ | ⟨_,_,further⟩
    · exact absurd zero present
    · have := follows.2 before last a (by simp)
      omega
    · rw [further]
      exact ih (some a.place) ⟨tail,fun before same b member => by cases same; exact above b member⟩

theorem firstFlaw_found (previous : Option Nat) (atoms : List Atom) (found : firstFlaw previous atoms = some flaw) :
    ∃ front a back, atoms = front ++ a :: back ∧ Follows previous front ∧
      FlawBehind ((front.getLast?.map (·.place)).or previous) a flaw := by
  induction atoms generalizing previous with
  | nil => cases found
  | cons a rest ih =>
    rcases flawBehind_exact previous a rest with ⟨other,here,behind⟩ | ⟨present,above,further⟩
    · cases here.symm.trans found
      exact ⟨[],a,rest,rfl,⟨canonical_nil,nofun⟩,behind⟩
    · rw [further] at found
      obtain ⟨front,b,back,rfl,follows,behind⟩ := ih _ found
      have later : ∀ c ∈ front, a.place < c.place := follows.2 a.place rfl
      refine ⟨a :: front,b,back,rfl,⟨(canonical_cons _ _).mpr ⟨later,present,follows.1⟩,?_⟩,?_⟩
      · intro before same c member
        rcases List.mem_cons.mp member with rfl | inFront
        · exact above before same
        · exact Nat.lt_trans (above before same) (later c inFront)
      · cases last : front.getLast? with
        | none =>
          rw [List.getLast?_eq_none_iff.mp last]
          rwa [last] at behind
        | some c =>
          rw [List.getLast?_cons,last]
          rwa [last] at behind

theorem firstFlaw_behind (previous : Option Nat) (front rest : List Atom) (follows : Follows previous front) :
    firstFlaw previous (front ++ rest) = firstFlaw ((front.getLast?.map (·.place)).or previous) rest := by
  induction front generalizing previous with
  | nil => rfl
  | cons a front ih =>
    obtain ⟨above,present,tail⟩ := (canonical_cons _ _).mp follows.1
    rcases flawBehind_exact previous a (front ++ rest) with ⟨_,_,zero | ⟨_,before,last,notAbove⟩⟩ | ⟨_,_,further⟩
    · exact absurd zero present
    · have := follows.2 before last a (by simp)
      omega
    · rw [List.cons_append,further,ih (some a.place) ⟨tail,fun before same b member => by cases same; exact above b member⟩,
        List.getLast?_cons]
      cases front.getLast? <;> rfl

theorem flaw_behind (previous : Option Nat) (rest : List Atom) (behind : FlawBehind previous a flaw) :
    firstFlaw previous (a :: rest) = some flaw := by
  cases behind with
  | zero nothing => exact if_pos nothing
  | unsorted present before last notAbove =>
    rw [firstFlaw,if_neg present,last,if_pos (by simpa using notAbove)]

theorem firstFlaw_exact (atoms : List Atom) (flaw : MarkingError) :
    firstFlaw none atoms = some flaw ↔ FirstFlaw atoms flaw := by
  constructor
  · intro found
    obtain ⟨front,a,back,split,follows,behind⟩ := firstFlaw_found none atoms found
    exact ⟨front,a,back,split,follows.1,by rwa [Option.or_none] at behind⟩
  · rintro ⟨front,a,back,rfl,canonical,behind⟩
    rw [firstFlaw_behind none front _ ⟨canonical,nofun⟩,Option.or_none]
    exact flaw_behind _ back behind

theorem ofAtoms_exact (atoms : List Atom) (m : Marking) : ofAtoms atoms = .ok m ↔ m.atoms = atoms := by
  unfold ofAtoms
  constructor
  · intro done
    split at done
    · cases done; rfl
    · cases done
  · rintro rfl
    split
    · rfl
    · next flaw found =>
      rw [(firstFlaw_none none m.atoms).mpr ⟨m.canonical,nofun⟩] at found
      cases found

theorem ofAtoms_refused (atoms : List Atom) (flaw : MarkingError) : ofAtoms atoms = .error flaw ↔ FirstFlaw atoms flaw := by
  rw [← firstFlaw_exact]
  unfold ofAtoms
  split
  · next clean => simp [clean]
  · next other found => simp [found]

theorem flawAt_exact (front : List Atom) (a : Atom) (back : List Atom) :
    AtomTable.flawAt (front ++ a :: back).toArray front.length =
      .ok (if a.mult = 0 then some (.zero a.place)
        else if (front.getLast?.map (·.place)).any (a.place ≤ ·) then some (.unsorted a.place) else none) := by
  have here : fetch (front ++ a :: back).toArray front.length = .ok a := (fetch_ok _ _ _).mpr (by simp)
  rw [AtomTable.flawAt,here,ok_bind]
  by_cases nothing : a.mult = 0
  · rw [if_pos nothing,if_pos nothing]
    rfl
  · rw [if_neg nothing,if_neg nothing]
    rcases List.eq_nil_or_concat front with rfl | ⟨early,before,rfl⟩
    · rfl
    · have there : fetch (early.concat before ++ a :: back).toArray ((early.concat before).length - 1) = .ok before :=
        (fetch_ok _ _ _).mpr (by simp)
      rw [if_neg (by simp),there,ok_bind]
      by_cases notAbove : a.place ≤ before.place <;> simp [notAbove]

theorem flaws_exact (front rest : List Atom) :
    (List.range' front.length rest.length).findSomeM? (AtomTable.flawAt (front ++ rest).toArray) =
      .ok (firstFlaw (front.getLast?.map (·.place)) rest) := by
  induction rest generalizing front with
  | nil => rfl
  | cons a rest ih =>
    have further := ih (front ++ [a])
    rw [List.append_assoc,List.length_append,List.getLast?_concat] at further
    rw [List.length_cons,List.range'_succ,List.findSomeM?,flawAt_exact,ok_bind,firstFlaw]
    by_cases nothing : a.mult = 0
    · rw [if_pos nothing,if_pos nothing]
      rfl
    · rw [if_neg nothing,if_neg nothing]
      by_cases notAbove : (front.getLast?.map (·.place)).any (a.place ≤ ·) = true
      · rw [if_pos notAbove,if_pos notAbove]
        rfl
      · rw [if_neg notAbove,if_neg notAbove]
        exact further

theorem convert_exact (given : AtomTable) : given.convert = .ok (table <$> ofAtoms given.toList) := by
  have flaws := flaws_exact [] given.toList
  rw [List.nil_append,Array.toArray_toList,List.length_nil,Array.length_toList,← List.range_eq_range',List.getLast?_nil,
    Option.map_none] at flaws
  rw [AtomTable.convert,AtomTable.firstFlaw,flaws,ok_bind]
  cases result : ofAtoms given.toList with
  | error flaw => rw [(firstFlaw_exact _ _).mpr ((ofAtoms_refused _ _).mp result)]; rfl
  | ok m =>
    have atoms := (ofAtoms_exact _ _).mp result
    rw [(firstFlaw_none none _).mpr ⟨atoms ▸ m.canonical,nofun⟩]
    refine congrArg (fun t => Except.ok (Except.ok t)) ?_
    rw [table,atoms,Array.toArray_toList]

end Marking

end TimePetri
