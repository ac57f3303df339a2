import TimePetri.Word

namespace TimePetri

-- Results that may be faults are taken apart and put together by these rules only.
@[simp] theorem ok_bind (a : α) (next : α → Except ε β) : (Except.ok a >>= next) = next a := rfl

@[simp] theorem error_bind (e : ε) (next : α → Except ε β) : (Except.error e >>= next) = .error e := rfl

@[simp] theorem pure_ok (a : α) : (pure a : Except ε α) = .ok a := rfl

@[simp] theorem ok_map (f : α → β) (a : α) : (f <$> (Except.ok a : Except ε α)) = .ok (f a) := rfl

@[simp] theorem error_map (f : α → β) (e : ε) : (f <$> (Except.error e : Except ε α)) = .error e := rfl

@[simp] theorem ok_mapError (rename : ε → δ) (a : α) : (Except.ok a).mapError rename = .ok a := rfl

@[simp] theorem error_mapError (rename : ε → δ) (e : ε) :
    (Except.error e : Except ε α).mapError rename = .error (rename e) := rfl

theorem bind_ok {first : Except ε α} {next : α → Except ε β} {b : β} :
    first >>= next = .ok b ↔ ∃ a, first = .ok a ∧ next a = .ok b := by
  cases first <;> simp

theorem map_ok {f : α → β} {result : Except ε α} {b : β} : f <$> result = .ok b ↔ ∃ a, result = .ok a ∧ f a = b := by
  cases result <;> simp

theorem map_error {f : α → β} {result : Except ε α} {e : ε} : f <$> result = .error e ↔ result = .error e := by
  cases result <;> simp

theorem mapError_ok {result : Except ε α} {rename : ε → δ} {a : α} :
    result.mapError rename = .ok a ↔ result = .ok a := by
  cases result <;> simp

def FailsAs (reasons : ε → Prop) (result : Except ε α) : Prop := ∀ reason, result = .error reason → reasons reason

theorem fails_ok {reasons : ε → Prop} (a : α) : FailsAs reasons (.ok a) := fun _ failed => by cases failed

theorem fails_error {reasons : ε → Prop} {reason : ε} (holds : reasons reason) :
    FailsAs reasons (.error reason : Except ε α) := fun _ failed => by cases failed; exact holds

theorem fails_bind {reasons : ε → Prop} {first : Except ε α} {next : α → Except ε β} (one : FailsAs reasons first)
    (other : ∀ a, first = .ok a → FailsAs reasons (next a)) : FailsAs reasons (first >>= next) := by
  cases first with
  | ok a => exact other a rfl
  | error reason => exact fails_error (one reason rfl)

theorem fails_mapError {reasons : δ → Prop} (result : Except ε α) (rename : ε → δ) (all : ∀ e, reasons (rename e)) :
    FailsAs reasons (result.mapError rename) := by
  cases result with
  | ok a => exact fails_ok a
  | error e => exact fails_error (all e)

theorem foldlM_exact {step : β → α → Except ε β} {total : β → α → β} (xs : List α) (start : β)
    (same : ∀ state, ∀ x ∈ xs, step state x = .ok (total state x)) : xs.foldlM step start = .ok (xs.foldl total start) := by
  induction xs generalizing start with
  | nil => rfl
  | cons x rest ih =>
    rw [List.foldlM_cons,same start x (by simp),ok_bind,List.foldl_cons]
    exact ih _ fun state y member => same state y (List.mem_cons_of_mem _ member)

theorem fetch_inside (table : Array α) (index : Nat) (inside : index < table.size) :
    fetch table index = .ok table[index] := (fetch_ok _ _ _).mpr (Array.getElem?_eq_getElem inside)

end TimePetri
