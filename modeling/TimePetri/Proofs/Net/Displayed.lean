import Mathlib
import TimePetri.Proofs.Net.Sound
import TimePetri.Proofs.Print.Lines

namespace TimePetri

open Script

variable {net : Net} {name other : String} {w v : Int64} {a b : Atom} {m : Marking} {as bs : List Atom} {rest more : List Char}

namespace Script

theorem decimal_unique (same : decimal w = decimal v) : w = v := Int64.toInt_inj.mp (Int.repr_inj.mp same)

theorem decimal_solid (w : Int64) : ∀ c ∈ (decimal w).toList, (c != ' ') = true := by
  have solid : ∀ n : Nat, ∀ c ∈ (Nat.repr n).toList, (c != ' ') = true := by
    intro n c member
    rw [Nat.repr_eq_ofList_toDigits,String.toList_ofList] at member
    have digit := Nat.isDigit_of_mem_toDigits (by decide) (by decide) member
    rw [bne_iff_ne]
    intro blank
    rw [blank] at digit
    cases digit
  unfold decimal
  cases w.toInt with
  | ofNat n => exact solid n
  | negSucc n =>
    intro c member
    change c ∈ ("-" ++ Nat.repr (n + 1)).toList at member
    rw [String.toList_append] at member
    rcases List.mem_append.mp member with sign | digit
    · cases List.mem_singleton.mp sign
      rfl
    · exact solid _ c digit

end Script

namespace Net

def countChars (w : Int64) : List Char := if w = 1 then [] else '*' :: (decimal w).toList

theorem counted_chars (name : String) (w : Int64) : (countedText name w).toList = name.toList ++ countChars w := by
  unfold countedText countChars
  split
  · rw [List.append_nil]
  · simp

theorem countChars_stops (ends : Stops (· != ' ') rest) : Stops isIdentChar (countChars w ++ rest) := by
  unfold countChars
  split
  · intro c first
    have blank := ends c first
    cases bne_eq_false_iff_eq.mp blank
    decide
  · intro c first
    cases first
    decide

-- A count left out is told from a written one by the star.
theorem countChars_unique (ends : Stops (· != ' ') rest) (closes : Stops (· != ' ') more)
    (same : countChars w ++ rest = countChars v ++ more) : w = v ∧ rest = more := by
  have starless : ∀ {left right : List Char}, Stops (· != ' ') left → left ≠ '*' :: right := by
    intro left right stops star
    subst star
    exact absurd (stops '*' rfl) (by decide)
  unfold countChars at same
  split at same <;> split at same
  · next one another => exact ⟨one.trans another.symm,same⟩
  · exact absurd same (starless ends)
  · exact absurd same.symm (starless closes)
  · have tails : (decimal w).toList ++ rest = (decimal v).toList ++ more := (List.cons.inj same).2
    obtain ⟨taken,dropped⟩ := takeWhile_stops (· != ' ') _ rest (decimal_solid w) ends
    obtain ⟨taken',dropped'⟩ := takeWhile_stops (· != ' ') _ more (decimal_solid v) closes
    rw [tails] at taken dropped
    exact ⟨decimal_unique (String.toList_inj.mp (taken.symm.trans taken')),dropped.symm.trans dropped'⟩

theorem counted_unique (isName : IsName name.toList) (otherName : IsName other.toList) (ends : Stops (· != ' ') rest)
    (closes : Stops (· != ' ') more)
    (same : (countedText name w).toList ++ rest = (countedText other v).toList ++ more) :
    name = other ∧ w = v ∧ rest = more := by
  rw [counted_chars,counted_chars,List.append_assoc,List.append_assoc] at same
  obtain ⟨names,counts⟩ := name_ends isName otherName (countChars_stops ends) (countChars_stops closes) same
  exact ⟨String.toList_inj.mp names,countChars_unique ends closes counts⟩

def entry (net : Net) (a : Atom) : String := countedText (net.places[a.place]?.getD "?") a.mult

-- The entries of atoms, each with a space before it. So the first entry is like the others.
def entriesText (net : Net) (atoms : List Atom) : String := spaced (atoms.map net.entry)

theorem entries_cons (net : Net) (a : Atom) (as : List Atom) :
    (net.entriesText (a :: as)).toList = ' ' :: ((net.entry a).toList ++ (net.entriesText as).toList) := by
  unfold entriesText
  rw [List.map_cons,spaced_cons,String.toList_append,String.toList_append,List.append_assoc]
  rfl

theorem entries_ends (net : Net) (atoms : List Atom) : Stops (· != ' ') (net.entriesText atoms).toList := by
  cases atoms with
  | nil => exact nofun
  | cons a as =>
    rw [entries_cons]
    intro c first
    cases first
    rfl

theorem entries_intercalated (net : Net) (a : Atom) (as : List Atom) :
    net.entriesText (a :: as) = " " ++ " ".intercalate ((a :: as).map net.entry) := by
  induction as generalizing a with
  | nil =>
    rw [List.map_singleton,String.intercalate_singleton]
    rfl
  | cons b bs ih =>
    have later := ih b
    unfold entriesText at later ⊢
    rw [List.map_cons,spaced_cons,later,List.map_cons,String.intercalate_cons_cons]
    simp only [String.append_assoc]

theorem place_unique (sound : net.Sound) {p q : Nat} (inside : p < net.places.size) (within : q < net.places.size)
    (same : net.places[p]?.getD "?" = net.places[q]?.getD "?") : p = q := by
  have known := default_found net.places "?" within
  rw [← same] at known
  exact stands_once sound.placeNames (default_found net.places "?" inside) known

theorem entry_unique (sound : net.Sound) (spelled : net.Spelled) (inside : a.place < net.places.size)
    (within : b.place < net.places.size) (ends : Stops (· != ' ') rest) (closes : Stops (· != ' ') more)
    (same : (net.entry a).toList ++ rest = (net.entry b).toList ++ more) : a = b ∧ rest = more := by
  obtain ⟨names,mults,rests⟩ := counted_unique (spelled.places _ (default_member _ _ inside))
    (spelled.places _ (default_member _ _ within)) ends closes same
  cases a
  cases b
  cases place_unique sound inside within names
  cases mults
  exact ⟨rfl,rests⟩

theorem entries_unique (sound : net.Sound) (spelled : net.Spelled) (known : ∀ a ∈ as, a.place < net.places.size)
    (known' : ∀ b ∈ bs, b.place < net.places.size) (same : net.entriesText as = net.entriesText bs) : as = bs := by
  induction as generalizing bs with
  | nil =>
    cases bs with
    | nil => rfl
    | cons b bs =>
      have chars := congrArg String.toList same
      rw [entries_cons] at chars
      cases chars
  | cons a as ih =>
    have chars := congrArg String.toList same
    rw [entries_cons] at chars
    cases bs with
    | nil => cases chars
    | cons b bs =>
      rw [entries_cons] at chars
      obtain ⟨rfl,later⟩ := entry_unique sound spelled (known a (by simp)) (known' b (by simp)) (entries_ends net as)
        (entries_ends net bs) (List.cons.inj chars).2
      rw [ih (fun c member => known c (List.mem_cons_of_mem _ member))
        (fun c member => known' c (List.mem_cons_of_mem _ member)) (String.toList_inj.mp later)]

theorem markingText_chars (filled : m.atoms = a :: as) :
    (net.markingText m).toList = (net.entry a).toList ++ (net.entriesText as).toList := by
  have spread := congrArg String.toList (entries_intercalated net a as)
  rw [entries_cons,String.toList_append] at spread
  unfold markingText
  rw [filled]
  exact (List.cons.inj spread).2.symm

-- An entry begins with a name, so only the marking without atoms has the empty text.
theorem markingText_empty (spelled : net.Spelled) (known : ∀ a ∈ m.atoms, a.place < net.places.size) :
    net.markingText m = "" ↔ m.atoms = [] := by
  constructor
  · intro empty
    cases filled : m.atoms with
    | nil => rfl
    | cons a as =>
      have isName := spelled.places _ (default_member net.places "?" (known a (by simp [filled])))
      have chars : (net.markingText m).toList = _ := markingText_chars filled
      rw [empty,entry,counted_chars,List.append_assoc] at chars
      rw [(List.append_eq_nil_iff.mp chars.symm).1] at isName
      cases isName
  · intro none
    unfold markingText
    rw [none]
    rfl

theorem entriesText_exact (spelled : net.Spelled) (known : ∀ a ∈ m.atoms, a.place < net.places.size) :
    net.entriesText m.atoms = if net.markingText m = "" then "" else " " ++ net.markingText m := by
  split
  · next empty =>
    rw [(markingText_empty spelled known).mp empty]
    rfl
  · next filled =>
    unfold markingText
    cases atoms : m.atoms with
    | nil => exact absurd ((markingText_empty spelled known).mpr atoms) filled
    | cons a as => exact entries_intercalated net a as

theorem parse_displayed (strict : Bool) (text : String) (net : Net) (parsed : (parse strict text).value = .ok net)
    (m other : Marking) (known : ∀ a ∈ m.atoms, a.place < net.places.size)
    (known' : ∀ a ∈ other.atoms, a.place < net.places.size) :
    net.markingText m = net.markingText other ↔ m = other := by
  obtain ⟨sound,spelled⟩ := parse_sound strict text net parsed
  constructor
  · intro same
    have entries : net.entriesText m.atoms = net.entriesText other.atoms := by
      rw [entriesText_exact spelled known,entriesText_exact spelled known',same]
    have atoms := entries_unique sound spelled known known' entries
    cases m
    cases other
    cases atoms
    rfl
  · rintro rfl
    rfl

-- A name that reads like two entries, and one with a brace behind a backslash in it.
def braced : Net :=
  ⟨"",#["a","\x7ba*2 a\x7d","\x7b\\\x7d*-1\x7d"],#["","",""],#[],#[],#[],#[],#[],#[],#[],.empty,#[]⟩

theorem parse_displayed_braced :
    (parse true "pl a\npl \x7ba*2 a\x7d\npl \x7b\\\x7d*-1\x7d").value = .ok braced ∧
      braced.markingText ((Marking.empty.set 1 1).set 2 (-1)) = "\x7ba*2 a\x7d \x7b\\\x7d*-1\x7d*-1" ∧
      braced.markingText ((Marking.empty.set 1 1).set 2 (-1)) ≠ braced.markingText ((Marking.empty.set 0 2).set 2 (-1)) := by
  have parsed : (parse true "pl a\npl \x7ba*2 a\x7d\npl \x7b\\\x7d*-1\x7d").value = .ok braced := by cbv
  have told := parse_displayed _ _ _ parsed ((Marking.empty.set 1 1).set 2 (-1)) ((Marking.empty.set 0 2).set 2 (-1))
    (by decide) (by decide)
  exact ⟨parsed,by decide,told.not.mpr (by decide)⟩

end Net

end TimePetri
