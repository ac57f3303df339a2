import Mathlib
import TimePetri.Proofs.Marking.Sum
import TimePetri.Proofs.Net.Sound

namespace TimePetri.Net

inductive Fires (net : Net) : Marking → List Nat → Marking → Prop where
  | nil (m : Marking) : Fires net m [] m
  | cons (enabled : net.isEnabled m t = .ok true) (fired : net.fire m t = .ok middle)
      (rest : Fires net middle ts last) : Fires net m (t :: ts) last

variable {net : Net} {m next last : Marking} {t : Nat} {ts : List Nat}

theorem meets_exact (guard m : Marking) :
    meets guard m = true ↔ ∀ p, guard.count p ≠ 0 → guard.count p ≤ m.count p := by
  have atoms : meets guard m = true ↔ ∀ a ∈ guard.atoms, a.mult.toInt ≤ m.count a.place := by
    simp only [meets,List.all_eq_true,decide_eq_true_eq,Int64.le_iff_toInt_le]
    rfl
  rw [atoms,guard.atoms_all fun p n => n ≤ m.count p]

theorem enabled_guard (nonneg : ∀ p, 0 ≤ m.count p) (enabled : net.isEnabled m t = .ok true) (p : Nat) :
    (net.row t).guard.count p ≤ m.count p := by
  obtain ⟨guard,fetched,rest⟩ := bind_ok.mp enabled
  have same : (net.row t).guard = guard := by simp [row,(fetch_ok _ _ _).mp fetched]
  rw [same]
  by_cases met : meets guard m = true
  · by_cases absent : guard.count p = 0
    · rw [absent]
      exact nonneg p
    · exact (meets_exact _ _).mp met p absent
  · rw [if_neg met] at rest
    cases rest

theorem enabled_inside (enabled : net.isEnabled m t = .ok true) : t < net.guard.size := by
  obtain ⟨guard,fetched,_⟩ := bind_ok.mp enabled
  exact (Array.getElem?_eq_some_iff.mp ((fetch_ok _ _ _).mp fetched)).1

theorem fire_exact (tabled : net.Tabled) (inside : t < net.transitions.size) (m : Marking) :
    (∃ next, net.fire m t = .ok next ∧ ∀ p, next.count p = m.count p + (net.row t).delta.count p) ∨
      net.fire m t = .error (.overflow .add) ∧ ∃ p, ¬ Fits (m.count p + (net.row t).delta.count p) := by
  have inDelta : t < net.delta.size := tabled.delta ▸ inside
  have fetched : fetch net.delta t = .ok (net.row t).delta :=
    (fetch_ok _ _ _).mpr (default_found net.delta .empty inDelta)
  unfold fire
  rw [fetched]
  exact m.add_exact _

theorem fire_nonneg (sound : net.Sound) (nonneg : ∀ p, 0 ≤ m.count p) (enabled : net.isEnabled m t = .ok true)
    (p : Nat) : 0 ≤ m.count p + (net.row t).delta.count p := by
  have holds := enabled_guard nonneg enabled p
  have guarded := (sound.rows t).guarded p
  have produced := (sound.rows t).produced p
  omega

theorem fire_safe (sound : net.Sound) (nonneg : m.isNonnegative = true) (enabled : net.isEnabled m t = .ok true) :
    (∃ next, net.fire m t = .ok next ∧ next.isNonnegative = true ∧
        ∀ p, next.count p = m.count p + (net.row t).delta.count p) ∨
      net.fire m t = .error (.overflow .add) ∧ ∃ p, wordLimit ≤ m.count p + (net.row t).delta.count p := by
  have tokens := m.nonnegative_exact.mp nonneg
  have inside : t < net.transitions.size := sound.tabled.guard ▸ enabled_inside enabled
  rcases fire_exact sound.tabled inside m with ⟨next,fired,counts⟩ | ⟨failed,p,exceeds⟩
  · refine .inl ⟨next,fired,next.nonnegative_exact.mpr fun p => ?_,counts⟩
    rw [counts]
    exact fire_nonneg sound tokens enabled p
  · have low := fire_nonneg sound tokens enabled p
    refine .inr ⟨failed,p,?_⟩
    unfold Fits wordLimit at exceeds
    unfold wordLimit
    omega

theorem fires_nonneg (sound : net.Sound) (nonneg : m.isNonnegative = true) (fires : Fires net m ts last) :
    last.isNonnegative = true := by
  induction fires with
  | nil => exact nonneg
  | cons enabled fired _ ih =>
    refine ih ?_
    rcases fire_safe sound nonneg enabled with ⟨next,same,safe,_⟩ | ⟨failed,_⟩
    · cases fired.symm.trans same
      exact safe
    · cases fired.symm.trans failed

theorem parse_fires_nonnegative (strict : Bool) (text : String) (net : Net)
    (parsed : (parse strict text).value = .ok net) :
    net.initial.isNonnegative = true ∧
    (∀ m t, m.isNonnegative = true → net.isEnabled m t = .ok true →
      (∃ next, net.fire m t = .ok next ∧ Canonical next.atoms ∧ next.isNonnegative = true ∧
          ∀ p, next.count p = m.count p + (net.row t).delta.count p) ∨
        net.fire m t = .error (.overflow .add) ∧ ∃ p, wordLimit ≤ m.count p + (net.row t).delta.count p) ∧
    ∀ ts last, Fires net net.initial ts last → last.isNonnegative = true := by
  have sound := (parse_sound strict text net parsed).1
  have initial : net.initial.isNonnegative = true := net.initial.nonnegative_exact.mpr sound.initial
  refine ⟨initial,?_,fun ts last fires => fires_nonneg sound initial fires⟩
  intro m t nonneg enabled
  rcases fire_safe sound nonneg enabled with ⟨next,fired,safe,counts⟩ | failed
  · exact .inl ⟨next,fired,next.canonical,safe,counts⟩
  · exact .inr failed

-- A read arc beside two inputs, a cap, and a loop whose change cancels.
def guarded : Net :=
  ⟨"",#["p","q"],#["",""],#["t","u"],#["",""],#[.unconstrained,.unconstrained],
    #[Marking.empty.set 0 3,Marking.empty.set 1 2],#[Marking.empty.set 1 4,.empty],
    #[Marking.empty.set 0 (-1),Marking.empty.set 1 (-2)],#[(Marking.empty.set 0 (-1)).set 1 2,.empty],
    Marking.empty.set 0 4,#[[],[]]⟩

theorem parse_fires_nonnegative_guarded :
    (parse false "pl p (4)\ntr t p?2 p q?-4 -> q\npl q t u -> u*2\ntr u -> q\ntr t p?3").value = .ok guarded ∧
      Fires guarded guarded.initial [0,1,0] ((Marking.empty.set 0 2).set 1 4) ∧
      ((Marking.empty.set 0 2).set 1 4).isNonnegative = true := by
  have parsed :
      (parse false "pl p (4)\ntr t p?2 p q?-4 -> q\npl q t u -> u*2\ntr u -> q\ntr t p?3").value = .ok guarded := by cbv
  have fires : Fires guarded guarded.initial [0,1,0] ((Marking.empty.set 0 2).set 1 4) := by
    have first : guarded.fire guarded.initial 0 = .ok ((Marking.empty.set 0 3).set 1 2) := by decide
    have second : guarded.fire ((Marking.empty.set 0 3).set 1 2) 1 = .ok ((Marking.empty.set 0 3).set 1 2) := by decide
    have third : guarded.fire ((Marking.empty.set 0 3).set 1 2) 0 = .ok ((Marking.empty.set 0 2).set 1 4) := by decide
    exact .cons (by decide) first (.cons (by decide) second (.cons (by decide) third (.nil _)))
  exact ⟨parsed,fires,(parse_fires_nonnegative _ _ _ parsed).2.2 _ _ fires⟩

end TimePetri.Net
