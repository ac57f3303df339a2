import TimePetri.Marking.Basic

namespace TimePetri

theorem lookup_below (place : Nat) (atoms : List Atom) (above : ∀ a ∈ atoms, place < a.place) :
    lookup place atoms = 0 := by
  induction atoms with
  | nil => rfl
  | cons a rest ih =>
    have different : a.place ≠ place := by have := above a (by simp); omega
    rw [lookup,if_neg different]
    exact ih fun b member => above b (List.mem_cons_of_mem _ member)

theorem lookup_member (atoms : List Atom) (valid : Canonical atoms) (a : Atom) (member : a ∈ atoms) :
    lookup a.place atoms = a.mult := by
  induction atoms with
  | nil => cases member
  | cons b rest ih =>
    obtain ⟨above,_,tail⟩ := (canonical_cons _ _).mp valid
    rcases List.mem_cons.mp member with rfl | later
    · simp [lookup]
    · have different : b.place ≠ a.place := by have := above a later; omega
      rw [lookup,if_neg different]
      exact ih tail later

theorem lookup_nonzero (atoms : List Atom) (place : Nat) (present : lookup place atoms ≠ 0) :
    ⟨place,lookup place atoms⟩ ∈ atoms := by
  induction atoms with
  | nil => exact absurd rfl present
  | cons a rest ih =>
    unfold lookup at present ⊢
    split
    · next same => subst same; exact List.mem_cons_self
    · next different =>
      rw [if_neg different] at present
      exact List.mem_cons_of_mem _ (ih present)

theorem lookup_entry (place : Nat) (mult : Int64) (rest : List Atom) (q : Nat)
    (above : ∀ a ∈ rest, place < a.place) :
    lookup q (entry place mult ++ rest) = if q = place then mult else lookup q rest := by
  by_cases same : q = place
  · subst same
    rw [if_pos rfl]
    unfold entry
    split
    · next zero => subst zero; exact lookup_below _ _ above
    · simp [lookup]
  · rw [if_neg same]
    unfold entry
    split
    · rfl
    · simp [lookup,Ne.symm same]

theorem lookup_assign (place : Nat) (mult : Int64) (atoms : List Atom) (valid : Canonical atoms) (q : Nat) :
    lookup q (assign place mult atoms) = if q = place then mult else lookup q atoms := by
  induction atoms with
  | nil => simpa [assign,lookup] using lookup_entry place mult [] q (by simp)
  | cons a rest ih =>
    obtain ⟨above,_,tail⟩ := (canonical_cons _ _).mp valid
    unfold assign
    split
    · next before =>
      apply lookup_entry
      intro b member
      rcases List.mem_cons.mp member with rfl | later
      · exact before
      · exact Nat.lt_trans before (above b later)
    · split
      · next same =>
        subst same
        rw [lookup_entry _ _ _ _ above]
        by_cases here : q = a.place
        · simp [here]
        · simp [here,lookup,Ne.symm here]
      · next different =>
        unfold lookup
        by_cases here : a.place = q
        · have other : q ≠ place := by omega
          simp [here,other]
        · rw [if_neg here,if_neg here]
          exact ih tail

theorem canonical_member (atoms : List Atom) (valid : Canonical atoms) (a : Atom) :
    a ∈ atoms ↔ a.mult ≠ 0 ∧ lookup a.place atoms = a.mult := by
  constructor
  · intro member
    exact ⟨valid.2 a member,lookup_member atoms valid a member⟩
  · rintro ⟨nonzero,found⟩
    have member := lookup_nonzero atoms a.place (by rw [found]; exact nonzero)
    rwa [found] at member

theorem canonical_exact (xs ys : List Atom) (validX : Canonical xs) (validY : Canonical ys)
    (same : ∀ place, lookup place xs = lookup place ys) : xs = ys := by
  have members : ∀ a, a ∈ xs ↔ a ∈ ys := by
    intro a
    rw [canonical_member xs validX,canonical_member ys validY,same]
  induction xs generalizing ys with
  | nil =>
    cases ys with
    | nil => rfl
    | cons b _ => exact absurd ((members b).mpr List.mem_cons_self) (by simp)
  | cons a xs ih =>
    cases ys with
    | nil => exact absurd ((members a).mp List.mem_cons_self) (by simp)
    | cons b ys =>
      obtain ⟨aboveX,_,tailX⟩ := (canonical_cons _ _).mp validX
      obtain ⟨aboveY,_,tailY⟩ := (canonical_cons _ _).mp validY
      have heads : a = b := by
        rcases List.mem_cons.mp ((members a).mp List.mem_cons_self) with eq | inY
        · exact eq
        · rcases List.mem_cons.mp ((members b).mpr List.mem_cons_self) with eq | inX
          · exact eq.symm
          · have up := aboveX b inX
            have down := aboveY a inY
            omega
      subst heads
      have rests : ∀ place, lookup place xs = lookup place ys := by
        intro place
        by_cases here : place = a.place
        · subst here
          rw [lookup_below _ _ aboveX,lookup_below _ _ aboveY]
        · have whole := same place
          simpa [lookup,Ne.symm here] using whole
      rw [ih ys tailX tailY rests]
      intro c
      rw [canonical_member xs tailX,canonical_member ys tailY,rests]

namespace Marking

theorem get_set (m : Marking) (place : Nat) (mult : Int64) (q : Nat) :
    (m.set place mult).get q = if q = place then mult else m.get q :=
  lookup_assign _ _ _ m.canonical _

theorem ext_get (m other : Marking) (same : ∀ place, m.get place = other.get place) : m = other := by
  have atoms := canonical_exact m.atoms other.atoms m.canonical other.canonical same
  cases m
  cases other
  cases atoms
  rfl

theorem addAt_get (m next : Marking) (place : Nat) (change : Int64) (added : m.addAt place change = .ok next)
    (q : Nat) : (next.get q).toInt = (m.get q).toInt + if q = place then change.toInt else 0 := by
  unfold addAt addWords at added
  cases found : checked .add ((m.get place).toInt + change.toInt) with
  | error fault => rw [found] at added; cases added
  | ok total =>
    rw [found] at added
    cases added
    rw [get_set]
    by_cases here : q = place
    · subst here
      rw [if_pos rfl,if_pos rfl]
      exact (checked_ok _ _ _).mp found
    · simp [here]

end Marking

end TimePetri
