import TimePetri.Interval.InPlace
import TimePetri.Proofs.Interval.Times

namespace TimePetri.Interval

open TimePetri.Bound

variable {i other first first' result left : Interval} {rest rest' : List Interval} {reason : IntervalError}

theorem meet_initialized (one : i.isUninitialized = false) (two : other.isUninitialized = false) :
    (i.meet other).isUninitialized = false := by
  unfold meet isUninitialized
  dsimp only
  rcases tighterLeft_cases i.left other.left with kept | taken
  · rw [kept]; exact one
  · rw [taken]; exact two

theorem meet_contains (one : i.isUninitialized = false) (two : other.isUninitialized = false) (x : ℚ) :
    (i.meet other).Contains x ↔ i.Contains x ∧ other.Contains x := by
  rw [Contains,meet_starts one two,meet_ends,Contains,Contains]
  tauto

theorem bounds_unique (starts : ∀ x, i.left.Starts x ↔ other.left.Starts x)
    (ends : ∀ x, i.right.Ends x ↔ other.right.Ends x) : i = other := by
  cases i
  cases other
  cases starts_unique starts
  cases ends_unique ends
  rfl

theorem meet_comm (one : i.isUninitialized = false) (two : other.isUninitialized = false) : i.meet other = other.meet i := by
  refine bounds_unique (fun x => ?_) fun x => ?_
  · rw [meet_starts one two,meet_starts two one,and_comm]
  · rw [meet_ends,meet_ends,and_comm]

theorem meet_self (initialized : i.isUninitialized = false) : i.meet i = i := by
  refine bounds_unique (fun x => ?_) fun x => ?_
  · rw [meet_starts initialized initialized,and_self_iff]
  · rw [meet_ends,and_self_iff]

theorem inhabited_refused (i : Interval) : i.inhabited = .error reason ↔ i.isEmpty = true ∧ reason = .empty i := by
  unfold inhabited
  cases i.isEmpty <;> simp [eq_comm]

theorem inhabited_contains (initialized : i.isUninitialized = false) :
    i.inhabited = .ok i ∧ (∃ x, i.Contains x) ∨ i.inhabited = .error (.empty i) ∧ ¬ ∃ x, i.Contains x := by
  obtain ⟨v,value⟩ := initialized_value initialized
  rw [← isEmpty_contains value]
  cases occupied : i.isEmpty with
  | false => exact .inl ⟨(inhabited_exact _ _).mpr ⟨occupied,rfl⟩,rfl⟩
  | true => exact .inr ⟨(inhabited_refused _).mpr ⟨occupied,rfl⟩,by simp⟩

theorem intersection_contains (one : i.isUninitialized = false) (two : other.isUninitialized = false) :
    i.intersection other = .ok (i.meet other) ∧ (∃ x, i.Contains x ∧ other.Contains x) ∨
      i.intersection other = .error (.empty (i.meet other)) ∧ ¬ ∃ x, i.Contains x ∧ other.Contains x := by
  have outcome := inhabited_contains (meet_initialized one two)
  simp only [meet_contains one two] at outcome
  rwa [intersection_meet one two]

theorem unconstrained_intersection (nonneg : ∀ v, other.left.value? = some v → 0 ≤ v.toInt) :
    unconstrained.intersection other = trivial.intersection other := by
  cases initialized : other.isUninitialized with
  | true =>
    unfold intersection
    rw [initialized,if_pos rfl,if_pos rfl]
  | false =>
    have kept : trivial.meet other = other := by
      refine bounds_unique (fun x => ?_) fun x => ?_
      · rw [meet_starts rfl initialized]
        refine and_iff_right_of_imp fun starts => ?_
        obtain ⟨v,value⟩ := initialized_value initialized
        have low : time 0 ≤ time v := Int.cast_le.mpr (nonneg v value)
        rcases (starts_value value).mp starts with above | ⟨here,_⟩
        · exact low.trans above.le
        · exact low.trans here.le
      · rw [meet_ends]
        exact and_iff_right True.intro
    have narrowed : trivial.intersection other = other.inhabited := by
      rw [intersection_meet (i := trivial) rfl initialized,kept]
    rw [narrowed]
    unfold intersection
    rw [initialized,if_neg (by simp)]
    rfl

theorem intersectWith_exact (i other : Interval) : (intersectWith other).run i =
    match i.intersection other with
    | .ok result => .ok () result
    | .error reason => .error reason i := by
  unfold intersectWith
  rw [EStateM.run_bind,EStateM.run_get]
  dsimp only
  cases i.intersection other with
  | ok result => exact EStateM.run_set result i
  | error reason => exact EStateM.run_throw reason i

theorem intersectAll_cons (first other : Interval) (rest : List Interval) : (intersectAll (other :: rest)).run first =
    match first.intersection other with
    | .ok middle => (intersectAll rest).run middle
    | .error reason => .error reason first := by
  change (intersectWith other >>= fun _ => intersectAll rest).run first = _
  rw [EStateM.run_bind,intersectWith_exact]
  cases first.intersection other <;> rfl

theorem intersectAll_exact (initialized : ∀ i ∈ first :: rest, i.isUninitialized = false) :
    (intersectAll rest).run first = .ok () result ↔
      (∀ x, result.left.Starts x ↔ ∀ i ∈ first :: rest, i.left.Starts x) ∧
      (∀ x, result.right.Ends x ↔ ∀ i ∈ first :: rest, i.right.Ends x) ∧
      (rest = [] ∨ ∃ x, ∀ i ∈ first :: rest, i.Contains x) := by
  -- The first interval stands for all that were met before the rest.
  induction rest generalizing first with
  | nil =>
    have ends : (intersectAll []).run first = .ok () result ↔ first = result := by
      simp [intersectAll,EStateM.run,pure,EStateM.pure]
    rw [ends]
    constructor
    · rintro rfl
      simp
    · rintro ⟨starts,ends,_⟩
      exact bounds_unique (fun x => by simp [starts]) fun x => by simp [ends]
  | cons other rest ih =>
    have one := initialized first (by simp)
    have two := initialized other (by simp)
    have met := meet_initialized one two
    have later := @ih (first.meet other) (by
      intro i member
      rcases List.mem_cons.mp member with rfl | inRest
      · exact met
      · exact initialized i (by simp [inRest]))
    simp only [List.forall_mem_cons,meet_starts one two,meet_ends,meet_contains one two,and_assoc] at later ⊢
    rw [intersectAll_cons]
    rcases intersection_contains one two with ⟨intersected,common⟩ | ⟨refused,none⟩
    · rw [intersected]
      simp only [later]
      refine and_congr_right fun _ => and_congr_right fun _ => ?_
      constructor
      · rintro (rfl | all)
        · obtain ⟨x,both⟩ := common
          exact .inr ⟨x,both.1,both.2,by simp⟩
        · exact .inr all
      · rintro (nothing | all)
        · cases nothing
        · exact .inr all
    · rw [refused]
      refine iff_of_false nofun ?_
      rintro ⟨_,_,nothing | ⟨x,here,there,_⟩⟩
      · cases nothing
      · exact none ⟨x,here,there⟩

theorem intersectAll_permuted (initialized : ∀ i ∈ first :: rest, i.isUninitialized = false)
    (same : (first :: rest).Perm (first' :: rest')) (result : Interval) :
    (intersectAll rest).run first = .ok () result ↔ (intersectAll rest').run first' = .ok () result := by
  have members : ∀ i, i ∈ first :: rest ↔ i ∈ first' :: rest' := fun _ => same.mem_iff
  have nothing : rest = [] ↔ rest' = [] := by
    rw [← List.length_eq_zero_iff,← List.length_eq_zero_iff,Nat.succ.inj same.length_eq]
  have initialized' : ∀ i ∈ first' :: rest', i.isUninitialized = false := fun i member =>
    initialized i ((members i).mpr member)
  rw [intersectAll_exact initialized,intersectAll_exact initialized']
  simp only [members,nothing]

theorem intersection_sets :
    (∀ i other : Interval, i.isUninitialized = false → other.isUninitialized = false →
      ((∃ result, i.intersection other = .ok result) ↔ ∃ x, i.Contains x ∧ other.Contains x) ∧
      (∀ result, i.intersection other = .ok result → ∀ x, result.Contains x ↔ i.Contains x ∧ other.Contains x) ∧
      ((¬ ∃ x, i.Contains x ∧ other.Contains x) → ∃ empty, i.intersection other = .error (.empty empty)) ∧
      i.intersection other = other.intersection i ∧
      ((∃ x, i.Contains x) → i.intersection i = .ok i)) ∧
    (∀ first rest first' rest', (∀ i ∈ first :: rest, i.isUninitialized = false) →
      (first :: rest).Perm (first' :: rest') →
      (∃ result, (intersectAll rest).run first = .ok () result ∧ (intersectAll rest').run first' = .ok () result) ∨
        (∃ reason left, (intersectAll rest).run first = .error reason left) ∧
          ∃ reason left, (intersectAll rest').run first' = .error reason left) ∧
    (∀ i other : Interval,
      (∀ result, (intersectWith other).run i = .ok () result ↔ i.intersection other = .ok result) ∧
      ∀ reason left, (intersectWith other).run i = .error reason left ↔ i.intersection other = .error reason ∧ left = i) ∧
    (∀ i other : Interval, other.isUninitialized = true → i.intersection other = .error .uninitialized) ∧
    ∀ other : Interval, (∀ v, other.left.value? = some v → 0 ≤ v.toInt) →
      unconstrained.intersection other = trivial.intersection other := by
  refine ⟨fun i other one two => ?_,fun first rest first' rest' initialized same => ?_,fun i other => ?_,?_,
    fun other nonneg => unconstrained_intersection nonneg⟩
  · have turned : i.intersection other = other.intersection i := by
      rw [intersection_meet one two,intersection_meet two one,meet_comm one two]
    have again : (∃ x, i.Contains x) → i.intersection i = .ok i := by
      intro occupied
      rw [intersection_meet one one,meet_self one]
      exact (inhabited_contains one).elim And.left fun none => absurd occupied none.2
    rcases intersection_contains one two with ⟨intersected,common⟩ | ⟨refused,none⟩
    · refine ⟨iff_of_true ⟨_,intersected⟩ common,fun result met x => ?_,fun none => absurd common none,turned,again⟩
      cases intersected.symm.trans met
      exact meet_contains one two x
    · refine ⟨iff_of_false ?_ none,fun result met => ?_,fun _ => ⟨_,refused⟩,turned,again⟩
      · rintro ⟨result,met⟩
        cases refused.symm.trans met
      · cases refused.symm.trans met
  · have permuted := intersectAll_permuted initialized same
    cases one : (intersectAll rest).run first with
    | ok done result => exact .inl ⟨result,rfl,(permuted result).mp one⟩
    | error reason left =>
      refine .inr ⟨⟨reason,left,rfl⟩,?_⟩
      cases two : (intersectAll rest').run first' with
      | ok done result =>
        have succeeded := (permuted result).mpr two
        cases one.symm.trans succeeded
      | error reason left => exact ⟨reason,left,rfl⟩
  · rw [intersectWith_exact]
    cases i.intersection other <;> simp [eq_comm]
  · intro i other uninitialized
    unfold intersection
    rw [uninitialized,if_pos rfl]

theorem intersection_sets_meeting :
    (⟨.closed (-1),.opened 5⟩ : Interval).intersection ⟨.closed 5,.infinite⟩ =
        .error (.empty ⟨.closed 5,.opened 5⟩) ∧
      (¬ ∃ x, (⟨.closed (-1),.opened 5⟩ : Interval).Contains x ∧ (⟨.closed 5,.infinite⟩ : Interval).Contains x) ∧
      ∃ result, (intersectAll [⟨.opened 2,.infinite⟩,⟨.closed 2,.opened 5⟩]).run ⟨.closed 0,.closed 5⟩ = .ok () result ∧
        (intersectAll [⟨.closed 0,.closed 5⟩,⟨.opened 2,.infinite⟩]).run ⟨.closed 2,.opened 5⟩ = .ok () result := by
  obtain ⟨pairs,orders,_⟩ := intersection_sets
  have refused : (⟨.closed (-1),.opened 5⟩ : Interval).intersection ⟨.closed 5,.infinite⟩ =
      .error (.empty ⟨.closed 5,.opened 5⟩) := by decide
  refine ⟨refused,?_,?_⟩
  · rw [← (pairs _ _ rfl rfl).1]
    rintro ⟨result,met⟩
    cases refused.symm.trans met
  · have narrowed : (intersectAll [⟨.opened 2,.infinite⟩,⟨.closed 2,.opened 5⟩]).run ⟨.closed 0,.closed 5⟩ =
        .ok () ⟨.opened 2,.opened 5⟩ := by rfl
    rcases orders ⟨.closed 0,.closed 5⟩ [⟨.opened 2,.infinite⟩,⟨.closed 2,.opened 5⟩] ⟨.closed 2,.opened 5⟩
      [⟨.closed 0,.closed 5⟩,⟨.opened 2,.infinite⟩] (by decide) (by decide) with
      both | ⟨⟨_,_,failed⟩,_⟩
    · exact both
    · cases narrowed.symm.trans failed

end TimePetri.Interval
