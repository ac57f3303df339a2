import Mathlib
import TimePetri.Proofs.Print.Texts

namespace TimePetri.Net

variable {net : Net}

theorem overflow_exact (sound : net.Sound) :
    (∃ t p, wordLimit ≤ (net.row t).produced p) ↔
      ∃ (t p : Nat) (pre delta : Marking), net.pre[t]? = some pre ∧ net.delta[t]? = some delta ∧
        wordLimit ≤ (delta.get p).toInt - (pre.get p).toInt := by
  constructor
  · rintro ⟨t,p,exceeds⟩
    have inside : t < net.transitions.size := by
      apply Classical.byContradiction
      intro outside
      rw [row_outside sound.tabled outside] at exceeds
      simp [Row.produced,Row.empty,wordLimit] at exceeds
    obtain ⟨_,_,pre,delta⟩ := row_fetched sound inside
    exact ⟨t,p,_,_,(fetch_ok _ _ _).mp pre,(fetch_ok _ _ _).mp delta,exceeds⟩
  · rintro ⟨t,p,pre,delta,preRow,deltaRow,exceeds⟩
    refine ⟨t,p,?_⟩
    unfold Row.produced row
    rw [preRow,deltaRow]
    exact exceeds

-- What a transition produces is the only sum that may be too large: a net keeps the change
-- alone, from which the sum is put together again here.
theorem render_fault (strict : Bool) (text : String) (net : Net) (parsed : (parse strict text).value = .ok net) :
    (∀ (t p : Nat) (guard pre : Marking), net.guard[t]? = some guard → net.pre[t]? = some pre →
      ∃ consumed read, negWord (pre.get p) = .ok consumed ∧ subWords (guard.get p) consumed = .ok read) ∧
    (net.render.fault = none ∨ net.render.fault = some (.overflow .add)) ∧
    (net.render.fault = some (.overflow .add) ↔
      ∃ (t p : Nat) (pre delta : Marking), net.pre[t]? = some pre ∧ net.delta[t]? = some delta ∧
        wordLimit ≤ (delta.get p).toInt - (pre.get p).toInt) := by
  have sound := (parse_sound strict text net parsed).1
  refine ⟨?_,?_,?_⟩
  · intro t p guard pre guardRow preRow
    have consumed := (Row.consumed_fits (sound.rows t) p).1
    have read := (Row.read_fits (sound.rows t) p).1
    have samePre : (net.row t).pre = pre := by simp [row,preRow]
    have sameGuard : (net.row t).guard = guard := by simp [row,guardRow]
    rw [samePre] at consumed
    rw [sameGuard] at read
    exact ⟨_,_,consumed,read⟩
  · rcases render_complete sound with ⟨none,_⟩ | ⟨failed,_⟩
    · exact .inl none
    · exact .inr failed
  · rw [← overflow_exact sound]
    rcases render_complete sound with ⟨none,fits⟩ | ⟨failed,exceeds⟩
    · rw [none]
      constructor
      · intro failed
        cases failed
      · rintro ⟨t,p,exceeds⟩
        exact absurd (fits t p) (by omega)
    · exact ⟨fun _ => exceeds,fun _ => failed⟩

-- Nine quintillion tokens are put back twice, once before and once after as many are taken.
def crowded : Net :=
  ⟨"",#["p"],#[""],#["t"],#[""],#[.unconstrained],#[Marking.empty.set 0 9000000000000000000],#[.empty],
    #[Marking.empty.set 0 (-9000000000000000000)],#[Marking.empty.set 0 9000000000000000000],.empty,#[[]]⟩

theorem render_fault_crowded :
    (parse false "tr t -> p*9E\ntr t p*9E\ntr t -> p*9E\n").value = .ok crowded ∧
      crowded.render.fault = some (.overflow .add) := by
  have parsed : (parse false "tr t -> p*9E\ntr t p*9E\ntr t -> p*9E\n").value = .ok crowded := by cbv
  refine ⟨parsed,(render_fault _ _ _ parsed).2.2.mpr ?_⟩
  exact ⟨0,0,_,_,rfl,rfl,by decide⟩

end TimePetri.Net
