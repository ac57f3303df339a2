import TimePetri.Priority.Search

namespace TimePetri.Priority

-- The lists of a relation are sets. An increasing list is the one way to write its set.
def Increasing (row : List Nat) : Prop := row.Pairwise (· < ·)

instance (row : List Nat) : Decidable (Increasing row) := inferInstanceAs (Decidable (row.Pairwise _))

theorem increasing_nil : Increasing [] := List.Pairwise.nil

theorem increasing_singleton (x : Nat) : Increasing [x] := List.pairwise_singleton _ _

theorem increasing_nodup (row : List Nat) (increasing : Increasing row) : row.Nodup :=
  increasing.imp fun less => Nat.ne_of_lt less

theorem increasing_exact (xs ys : List Nat) (increasingX : Increasing xs) (increasingY : Increasing ys)
    (same : ∀ x, x ∈ xs ↔ x ∈ ys) : xs = ys := by
  have perm := (List.perm_ext_iff_of_nodup (increasing_nodup _ increasingX) (increasing_nodup _ increasingY)).mpr same
  exact perm.eq_of_pairwise (fun _ _ _ _ less more => absurd less (Nat.lt_asymm more)) increasingX increasingY

theorem range_increasing (n : Nat) : Increasing (List.range n) := List.pairwise_lt_range

@[simp] theorem squeeze_member (x : Nat) (row : List Nat) : x ∈ squeeze row ↔ x ∈ row := by
  fun_induction squeeze row with
  | case1 a rest ih => simp [ih]
  | case2 a b rest _ ih => simp [ih]
  | case3 => rfl

theorem squeeze_increasing (row : List Nat) (ordered : row.Pairwise (· ≤ ·)) : Increasing (squeeze row) := by
  fun_induction squeeze row with
  | case1 a rest ih => exact ih (List.pairwise_cons.mp ordered).2
  | case2 a b rest different ih =>
    obtain ⟨below,tail⟩ := List.pairwise_cons.mp ordered
    refine List.pairwise_cons.mpr ⟨?_,ih tail⟩
    intro x member
    have first : a < b := Nat.lt_of_le_of_ne (below b (by simp)) different
    rcases List.mem_cons.mp ((squeeze_member _ _).mp member) with rfl | later
    · exact first
    · exact Nat.lt_of_lt_of_le first ((List.pairwise_cons.mp tail).1 x later)
  | case3 row short =>
    match row, short with
    | [], _ => exact increasing_nil
    | [x], _ => exact increasing_singleton x
    | a :: b :: rest, short => exact absurd rfl (short a b rest)

@[simp] theorem union_member (x : Nat) (xs ys : List Nat) : x ∈ union xs ys ↔ x ∈ xs ∨ x ∈ ys := by
  simp [union,List.mem_merge]

theorem union_increasing (xs ys : List Nat) (increasingX : Increasing xs) (increasingY : Increasing ys) :
    Increasing (union xs ys) := by
  apply squeeze_increasing
  have merged : (xs.merge ys).Pairwise fun a b => decide (a ≤ b) = true := List.pairwise_merge
    (by intro a b c; simpa using Nat.le_trans) (by intro a b; simpa using Nat.le_total a b) xs ys
    (increasingX.imp fun less => by simpa using Nat.le_of_lt less)
    (increasingY.imp fun less => by simpa using Nat.le_of_lt less)
  exact merged.imp (by simp)

theorem union_nil (ys : List Nat) (increasing : Increasing ys) : union [] ys = ys :=
  increasing_exact _ _ (union_increasing _ _ increasing_nil increasing) increasing (by simp)

@[simp] theorem insert_member (x y : Nat) (xs : List Nat) : x ∈ insert xs y ↔ x ∈ xs ∨ x = y := by
  simp [insert]

theorem insert_increasing (xs : List Nat) (y : Nat) (increasing : Increasing xs) : Increasing (insert xs y) :=
  union_increasing _ _ increasing (increasing_singleton y)

end TimePetri.Priority
