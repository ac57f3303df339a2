import TimePetri.Word

namespace TimePetri

structure Atom where
  place : Nat
  mult : Int64
  deriving DecidableEq

-- Places strictly increase and no multiplicity is zero, so a function with
-- finitely many non-zero values has exactly one list of atoms.
def Canonical (atoms : List Atom) : Prop :=
  atoms.Pairwise (fun a b => a.place < b.place) ∧ ∀ a ∈ atoms, a.mult ≠ 0

-- A marking counts tokens per place. Multiplicities may be negative: a change of
-- marking is a marking too.
structure Marking where
  atoms : List Atom
  canonical : Canonical atoms
  deriving DecidableEq

inductive MarkingError where
  | zero (place : Nat)
  | unsorted (place : Nat)
  | overflow (place : Nat)
  deriving DecidableEq

def MarkingError.message : MarkingError → String
  | .zero place => s!"place {place} has a zero multiplicity"
  | .unsorted place => s!"place {place} is repeated or out of order"
  | .overflow place => s!"multiplicity of place {place} overflows"

def lookup (place : Nat) : List Atom → Int64
  | [] => 0
  | a :: rest => if a.place = place then a.mult else lookup place rest

def entry (place : Nat) (mult : Int64) : List Atom := if mult = 0 then [] else [⟨place,mult⟩]

def assign (place : Nat) (mult : Int64) : List Atom → List Atom
  | [] => entry place mult
  | a :: rest =>
    if place < a.place then entry place mult ++ a :: rest
    else if place = a.place then entry place mult ++ rest
    else a :: assign place mult rest

theorem entry_member (place : Nat) (mult : Int64) (a : Atom) :
    a ∈ entry place mult ↔ a = ⟨place,mult⟩ ∧ mult ≠ 0 := by
  unfold entry
  split <;> simp_all

theorem canonical_nil : Canonical [] := ⟨List.Pairwise.nil,by simp⟩

theorem canonical_cons (a : Atom) (rest : List Atom) :
    Canonical (a :: rest) ↔ (∀ b ∈ rest, a.place < b.place) ∧ a.mult ≠ 0 ∧ Canonical rest := by
  simp [Canonical,List.pairwise_cons]
  grind

theorem canonical_entry (place : Nat) (mult : Int64) (rest : List Atom)
    (above : ∀ b ∈ rest, place < b.place) (valid : Canonical rest) :
    Canonical (entry place mult ++ rest) := by
  unfold entry
  split
  · exact valid
  · next nonzero => exact (canonical_cons _ _).mpr ⟨above,nonzero,valid⟩

theorem assign_member (place : Nat) (mult : Int64) (atoms : List Atom) (b : Atom)
    (member : b ∈ assign place mult atoms) : b.place = place ∨ b ∈ atoms := by
  induction atoms with
  | nil => exact .inl (by rw [((entry_member _ _ _).mp member).1])
  | cons a rest ih =>
    unfold assign at member
    grind [entry_member]

theorem assign_canonical (place : Nat) (mult : Int64) (atoms : List Atom) (valid : Canonical atoms) :
    Canonical (assign place mult atoms) := by
  induction atoms with
  | nil => simpa [assign] using canonical_entry place mult [] (by simp) canonical_nil
  | cons a rest ih =>
    obtain ⟨above,nonzero,tail⟩ := (canonical_cons _ _).mp valid
    unfold assign
    split
    · next before =>
      refine canonical_entry _ _ _ ?_ valid
      intro b member
      rcases List.mem_cons.mp member with rfl | later
      · exact before
      · exact Nat.lt_trans before (above b later)
    · split
      · next same =>
        subst same
        exact canonical_entry _ _ _ above tail
      · refine (canonical_cons _ _).mpr ⟨?_,nonzero,ih tail⟩
        intro b member
        rcases assign_member _ _ _ _ member with same | later
        · omega
        · exact above b later

namespace Marking

def empty : Marking := ⟨[],canonical_nil⟩

def get (m : Marking) (place : Nat) : Int64 := lookup place m.atoms

def set (m : Marking) (place : Nat) (mult : Int64) : Marking :=
  ⟨assign place mult m.atoms,assign_canonical _ _ _ m.canonical⟩

def places (m : Marking) : List Nat := m.atoms.map (·.place)

def size (m : Marking) : Nat := m.atoms.length

def isEmpty (m : Marking) : Bool := m.atoms.isEmpty

def isNonnegative (m : Marking) : Bool := m.atoms.all fun a => 0 < a.mult

-- Adding tokens to one place: the atom goes away when its count returns to zero.
def addAt (m : Marking) (place : Nat) (change : Int64) : Except Fault Marking := do
  return m.set place (← addWords (m.get place) change)

-- The same addition for counts that come from outside: the place that has no
-- room is named instead of stopping the run.
def addAt? (m : Marking) (place : Nat) (change : Int64) : Except MarkingError Marking :=
  match m.addAt place change with
  | .ok next => .ok next
  | .error _ => .error (.overflow place)

-- Zero never counts as a value here: it leaves the marking alone, and a place
-- without tokens takes whatever other value it is given.
def update (pick : Int64 → Int64 → Int64) (m : Marking) (place : Nat) (value : Int64) : Marking :=
  if value = 0 then m
  else if m.get place = 0 then m.set place value
  else m.set place (pick (m.get place) value)

def raise : Marking → Nat → Int64 → Marking := update max

def lower : Marking → Nat → Int64 → Marking := update min

def ofPairs (pairs : List (Nat × Int64)) : Except Fault Marking :=
  pairs.foldlM (fun m pair => m.addAt pair.1 pair.2) empty

def toPairs (m : Marking) : List (Nat × Int64) := m.atoms.map fun a => (a.place,a.mult)

def add (m other : Marking) : Except Fault Marking :=
  other.atoms.foldlM (fun sum a => sum.addAt a.place a.mult) m

def neg (m : Marking) : Except Fault Marking :=
  m.atoms.foldlM (fun flipped a => return flipped.set a.place (← negWord a.mult)) empty

-- A difference negates the whole of what it takes away before it adds anything.
def sub (m other : Marking) : Except Fault Marking := do
  m.add (← other.neg)

-- Atoms given from outside are taken as they are. The first one that is zero, or
-- that does not lie above the one before it, is reported, zero before order.
def firstFlaw (previous : Option Nat) : List Atom → Option MarkingError
  | [] => none
  | a :: rest =>
    if a.mult = 0 then some (.zero a.place)
    else if previous.any (a.place ≤ ·) then some (.unsorted a.place)
    else firstFlaw (some a.place) rest

end Marking

theorem firstFlaw_canonical (previous : Option Nat) (atoms : List Atom)
    (clean : Marking.firstFlaw previous atoms = none) :
    Canonical atoms ∧ ∀ bound ∈ previous, ∀ a ∈ atoms, bound < a.place := by
  induction atoms generalizing previous with
  | nil => exact ⟨canonical_nil,by simp⟩
  | cons a rest ih =>
    unfold Marking.firstFlaw at clean
    split at clean
    · cases clean
    · next nonzero =>
      split at clean
      · cases clean
      · next ordered =>
        obtain ⟨tail,above⟩ := ih _ clean
        have later : ∀ b ∈ rest, a.place < b.place := above a.place rfl
        refine ⟨(canonical_cons _ _).mpr ⟨later,nonzero,tail⟩,?_⟩
        intro bound isBound b member
        have first : bound < a.place := by
          rw [Option.mem_def.mp isBound] at ordered
          simpa using ordered
        rcases List.mem_cons.mp member with rfl | inRest
        · exact first
        · exact Nat.lt_trans first (later b inRest)

namespace Marking

def ofAtoms (atoms : List Atom) : Except MarkingError Marking :=
  match clean : firstFlaw none atoms with
  | none => .ok ⟨atoms,(firstFlaw_canonical _ _ clean).1⟩
  | some flaw => .error flaw

def entryText (a : Atom) : String := toString a.place ++ ": " ++ decimal a.mult

def text (m : Marking) : String :=
  "\x7b" ++ ", ".intercalate (m.atoms.map entryText) ++ "\x7d"

def tallText (m : Marking) : String :=
  if m.isEmpty then "\x7b\x7d"
  else "\x7b\n" ++ String.join (m.atoms.map fun a => "    " ++ entryText a ++ ",\n") ++ "\x7d"

end Marking

end TimePetri
