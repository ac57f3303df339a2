import TimePetri.Priority.InPlace
import TimePetri.Proofs.Checked
import TimePetri.Proofs.Priority.Outcome

namespace TimePetri.Priority

theorem fetch_lowerOf (relation : Relation) (t : Nat) (inside : t < relation.size) :
    fetch relation t = .ok (lowerOf relation t) := by
  rw [fetch_inside _ _ inside]
  simp [lowerOf,inside]

def AgreeOn (members : List Nat) (relation other : Relation) : Prop :=
  ∀ t ∈ members, lowerOf relation t = lowerOf other t

theorem gather_exact (relation origin : Relation) (t : Nat) (inside : t < relation.size)
    (kept : lowerOf relation t = lowerOf origin t) (lowerInside : ∀ v ∈ lowerOf origin t, v < relation.size)
    (lowerKept : AgreeOn (lowerOf origin t) relation origin) : gather relation t = .ok (extended origin t) := by
  unfold gather extended
  rw [fetch_lowerOf _ _ inside,kept,ok_bind]
  apply foldlM_exact
  intro reached v member
  rw [fetch_lowerOf _ _ (lowerInside v member),lowerKept v member]
  rfl

theorem searchAll_exact (row final : List Nat) (increasing : Increasing final) :
    row.all (search · final) = row.all (final.contains ·) := by
  congr 1
  funext u
  rw [Bool.eq_iff_iff,search_exact u final increasing,List.contains_iff_mem]

-- One transition of a pass, against the table as it was when the pass began: the
-- lists that being ready asks for are final, and a pass does not replace these.
theorem sweepOne_exact (origin : Relation) (final : List Nat) (sweep : Sweep) (t : Nat)
    (size : sweep.relation.size = origin.size) (increasing : Increasing final) (inside : t < origin.size)
    (finalInside : ∀ u ∈ final, u < origin.size) (kept : lowerOf sweep.relation t = lowerOf origin t)
    (finalKept : AgreeOn final sweep.relation origin) :
    sweepOne final sweep t = .ok (if isReady origin final t then
      ⟨sweep.relation.setIfInBounds t (extended origin t),insert sweep.final t,sweep.left⟩
      else { sweep with left := sweep.left ++ [t] }) := by
  have here : t < sweep.relation.size := size ▸ inside
  unfold sweepOne isReady
  rw [fetch_lowerOf _ _ here,kept,ok_bind,searchAll_exact _ _ increasing]
  split
  · next ready =>
    have lower : ∀ v ∈ lowerOf origin t, v ∈ final := by simpa using ready
    rw [gather_exact _ origin _ here kept (fun v member => size ▸ finalInside v (lower v member))
      (fun v member => finalKept v (lower v member))]
    rfl
  · rfl

theorem sweepAll_exact (origin : Relation) (final work : List Nat) (sweep : Sweep)
    (size : sweep.relation.size = origin.size) (increasing : Increasing final)
    (inside : ∀ t ∈ work, t < origin.size) (finalInside : ∀ u ∈ final, u < origin.size)
    (distinct : work.Nodup) (apart : ∀ t ∈ work, t ∉ final)
    (kept : AgreeOn work sweep.relation origin) (finalKept : AgreeOn final sweep.relation origin) :
    work.foldlM (sweepOne final) sweep = .ok
      ⟨(readyAmong origin final work).foldl (fun next t => next.setIfInBounds t (extended origin t)) sweep.relation,
        (readyAmong origin final work).foldl insert sweep.final,sweep.left ++ openAmong origin final work⟩ := by
  induction work generalizing sweep with
  | nil => simp [readyAmong,openAmong]
  | cons t rest ih =>
    obtain ⟨fresh,distinct⟩ := List.nodup_cons.mp distinct
    have here : t < sweep.relation.size := size ▸ inside t (by simp)
    rw [List.foldlM_cons,sweepOne_exact origin final sweep t size increasing (inside t (by simp)) finalInside
      (kept t (by simp)) finalKept,ok_bind]
    have restInside := fun u member => inside u (List.mem_cons_of_mem t member)
    have restApart := fun u member => apart u (List.mem_cons_of_mem t member)
    cases ready : isReady origin final t with
    | false =>
      rw [if_neg (by simp)]
      rw [ih { sweep with left := sweep.left ++ [t] } size restInside distinct restApart
        (fun u member => kept u (List.mem_cons_of_mem _ member)) finalKept]
      simp [readyAmong,openAmong,ready]
    | true =>
      rw [if_pos rfl]
      -- The list just replaced is that of no other open transition and of no final one.
      rw [ih ⟨_,_,_⟩ (by simpa using size) restInside distinct restApart ?_ ?_]
      · simp [readyAmong,openAmong,ready]
      · intro u member
        have other : u ≠ t := by rintro rfl; exact fresh member
        rw [lowerOf_set _ _ _ _ here,if_neg other]
        exact kept u (List.mem_cons_of_mem _ member)
      · intro u member
        have other : u ≠ t := by rintro rfl; exact apart u (by simp) member
        rw [lowerOf_set _ _ _ _ here,if_neg other]
        exact finalKept u member

theorem inserted_member (u : Nat) (more set : List Nat) : u ∈ more.foldl insert set ↔ u ∈ set ∨ u ∈ more := by
  induction more generalizing set with
  | nil => simp
  | cons t rest ih => rw [List.foldl_cons,ih]; simp [or_assoc]

theorem inserted_increasing (more set : List Nat) (increasing : Increasing set) :
    Increasing (more.foldl insert set) := by
  induction more generalizing set with
  | nil => exact increasing
  | cons t rest ih => rw [List.foldl_cons]; exact ih _ (insert_increasing _ _ increasing)

theorem firstOwnLower_exact (relation : Relation) (work : List Nat) (inside : ∀ t ∈ work, t < relation.size) :
    firstOwnLower relation work = .ok (work.find? fun t => search t (lowerOf relation t)) := by
  induction work with
  | nil => rfl
  | cons t rest ih =>
    unfold firstOwnLower
    rw [fetch_lowerOf _ _ (inside t (by simp)),ok_bind,List.find?_cons]
    split
    · next own => rw [own]; rfl
    · next other =>
      rw [Bool.eq_false_iff.mpr other]
      exact ih fun u member => inside u (List.mem_cons_of_mem _ member)

theorem diagnose_exact (relation : Relation) (names : Array String) (work : List Nat) (inside : ∀ t ∈ work, t < relation.size) :
    diagnose relation names work = .ok (stuck relation names work) := by
  unfold diagnose stuck
  rw [firstOwnLower_exact _ _ inside,ok_bind]
  cases work.find? fun t => search t (lowerOf relation t) <;> rfl

theorem readyAmong_same (relation : Relation) (final other work : List Nat) (same : ∀ t, t ∈ final ↔ t ∈ other) :
    readyAmong relation final work = readyAmong relation other work ∧
      openAmong relation final work = openAmong relation other work := by
  have ready : isReady relation final = isReady relation other := by
    funext t
    unfold isReady
    congr 1
    funext u
    rw [Bool.eq_iff_iff,List.contains_iff_mem,List.contains_iff_mem]
    exact same u
  simp only [readyAmong,openAmong,ready,and_self]

theorem openAmong_length (relation : Relation) (final work : List Nat) :
    (openAmong relation final work).length = work.length ↔ readyAmong relation final work = [] := by
  simp [openAmong,readyAmong,List.length_filter_eq_length_iff,List.filter_eq_nil_iff]

theorem sweepAll_pass (standing : Standing origin relation final work) (increasing : Increasing listed)
    (same : ∀ t, t ∈ listed ↔ t ∈ final) :
    sweepAll relation listed work = .ok ⟨pass relation (readyAmong relation final work),
      (readyAmong relation final work).foldl insert listed,openAmong relation final work⟩ := by
  have inside : ∀ u ∈ listed, u < relation.size := fun u member =>
    standing.size ▸ (standing.covers u).mpr (.inl ((same u).mp member))
  have swept := sweepAll_exact relation listed work ⟨relation,listed,[]⟩ rfl increasing (fun t => standing.inside) inside
    (increasing_nodup _ standing.increasing) (fun t member done => standing.apart t ((same t).mp done) member)
    (fun _ _ => rfl) (fun _ _ => rfl)
  obtain ⟨sameReady,sameOpen⟩ := readyAmong_same relation listed final work same
  rw [sameReady,sameOpen] at swept
  exact swept

theorem closeInPlaceFrom_exact (ordered : Ordered origin) (progress : Progress origin relation final work)
    (increasing : Increasing listed) (same : ∀ t, t ∈ listed ↔ t ∈ final) :
    closeInPlaceFrom relation names listed work passes = .ok (closeFrom relation names final work passes) := by
  fun_induction closeFrom relation names final work passes generalizing listed with
  | case1 => unfold closeInPlaceFrom; rw [if_pos rfl]
  | case2 relation final work passes left none =>
    unfold closeInPlaceFrom
    rw [if_neg left]
    split
    · next failed => rw [sweepAll_pass progress.toStanding increasing same] at failed; cases failed
    · next done =>
      rw [sweepAll_pass progress.toStanding increasing same] at done
      cases done
      rw [if_pos ((openAmong_length _ _ _).mpr none),none]
      change (diagnose relation names work >>= _) = _
      rw [diagnose_exact _ _ _ fun t => progress.inside]
      rfl
  | case3 relation final work passes left some ready =>
    rename_i ih
    unfold closeInPlaceFrom
    rw [if_neg left]
    split
    · next failed => rw [sweepAll_pass progress.toStanding increasing same] at failed; cases failed
    · next done =>
      rw [sweepAll_pass progress.toStanding increasing same] at done
      cases done
      rw [if_neg (mt (openAmong_length _ _ _).mp some)]
      refine ih (pass_progress ordered progress) (inserted_increasing _ _ increasing) ?_
      intro t
      rw [inserted_member,List.mem_append,same]

theorem divide_exact (relation : Relation) (transitions : List Nat) (inside : ∀ t ∈ transitions, t < relation.size) :
    divide relation transitions =
      .ok (transitions.filter (isBottom relation),transitions.filter fun t => !isBottom relation t) := by
  induction transitions with
  | nil => rfl
  | cons t rest ih =>
    unfold divide
    rw [fetch_lowerOf _ _ (inside t (by simp)),ok_bind,ih fun u member => inside u (List.mem_cons_of_mem _ member),ok_bind]
    cases bottom : isBottom relation t <;> simp [isBottom] at bottom <;> simp [isBottom,bottom]

-- So no list outside the table is ever asked for.
theorem closeInPlace_exact (relation : Relation) (names : Array String) (ordered : Ordered relation) :
    closeInPlace relation names = .ok (close relation names) := by
  unfold closeInPlace close
  rw [divide_exact _ _ fun t member => List.mem_range.mp member,ok_bind]
  dsimp only
  split
  · rfl
  · split
    · rfl
    · exact closeInPlaceFrom_exact ordered (start_progress relation)
        (List.Pairwise.filter _ (range_increasing _)) fun _ => Iff.rfl

end TimePetri.Priority
