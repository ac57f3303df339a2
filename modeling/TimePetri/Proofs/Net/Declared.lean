import TimePetri.Proofs.Net.Sound
import TimePetri.Proofs.Script.Spells

namespace TimePetri

open Script

theorem Script.Clause.Measured.unplaced {clause : Clause} (measured : clause.Measured) : clause.unplaced.Measured := by
  cases clause <;> exact measured

namespace Net

variable {strict : Bool} {text : String} {net : Net}

-- The declarations of a text that was read, and the steps in which its net was put together.
structure Declared (strict : Bool) (text : String) (net : Net) (declarations : List Declaration) : Prop where
  spells : Spells declarations text
  readable : ∀ declaration ∈ declarations, declaration.Readable
  measured : ∀ clause ∈ declarations.flatMap Declaration.clauses, clause.Measured
  applied : (declarations.flatMap Declaration.clauses).foldlM (apply strict) empty = .ok net

theorem run_induction {motive : List Clause → Net → Prop} (start : motive [] empty)
    (further : ∀ done net clause next, net.Sound → motive done net → clause.Measured →
      net.apply strict clause = .ok next → motive (done ++ [clause]) next)
    (clauses : List Clause) (measured : ∀ clause ∈ clauses, clause.Measured)
    (applied : clauses.foldlM (apply strict) empty = .ok net) : motive clauses net := by
  -- The clauses done so far are left open, as each step adds one behind them.
  have from_here : ∀ done current, current.Sound → motive done current →
      clauses.foldlM (apply strict) current = .ok net → motive (done ++ clauses) net := by
    clear applied
    induction clauses with
    | nil => intro done current _ holds reached; cases reached; rwa [List.append_nil]
    | cons clause rest ih =>
      intro done current sound holds reached
      rw [List.foldlM_cons] at reached
      obtain ⟨middle,now,later⟩ := bind_ok.mp reached
      have first := measured clause (by simp)
      have more := ih (fun other member => measured other (List.mem_cons_of_mem _ member)) (done ++ [clause]) middle
        (apply_sound sound strict clause first now) (further done current clause middle sound holds first now) later
      rwa [List.append_assoc] at more
  exact from_here [] empty empty_sound start applied

theorem run_sound (clauses : List Clause) (measured : ∀ clause ∈ clauses, clause.Measured)
    (applied : clauses.foldlM (apply strict) empty = .ok net) : net.Sound :=
  run_induction (motive := fun _ net => net.Sound) empty_sound
    (fun _ _ clause _ sound _ measured applied => apply_sound sound strict clause measured applied) clauses measured applied

theorem Declared.sound {declarations : List Declaration} (declared : Declared strict text net declarations) : net.Sound :=
  run_sound _ declared.measured declared.applied

theorem parse_declared (parsed : (parse strict text).value = .ok net) :
    ∃ declarations, Declared strict text net declarations := by
  obtain ⟨_,complete⟩ := (ofReading_ok _ _ _).mp parsed
  obtain ⟨declarations,spells,readable,same⟩ := readingOf_spells complete
  have clauses : declarations.flatMap Declaration.clauses = (readingOf text).clauses.map Clause.unplaced :=
    (congrArg Reading.clauses same).symm
  refine ⟨declarations,spells,readable,?_,?_⟩
  · rw [clauses]
    intro clause member
    obtain ⟨placed,inText,rfl⟩ := List.mem_map.mp member
    exact ((readingOf_admissible text).clauses placed inText).measured.unplaced
  · have unplaced : (ofReading strict (readingOf text).unplaced).value = .ok net := by
      rw [ofReading_unplaced]
      exact mapError_ok.mpr parsed
    obtain ⟨applied,_⟩ := (ofReading_ok _ _ _).mp unplaced
    rw [applyAll_fold] at applied
    rwa [clauses]

end Net

end TimePetri
