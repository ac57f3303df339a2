import TimePetri.Proofs.Print.Flow

namespace TimePetri

theorem mapM_cases (step : α → Except ε β) (fault : ε) (xs : List α)
    (only : ∀ x ∈ xs, (∃ y, step x = .ok y) ∨ step x = .error fault) :
    (∃ ys, xs.mapM step = .ok ys) ∧ (∀ x ∈ xs, ∃ y, step x = .ok y) ∨
      xs.mapM step = .error fault ∧ ∃ x ∈ xs, step x = .error fault := by
  induction xs with
  | nil => exact .inl ⟨⟨[],rfl⟩,nofun⟩
  | cons x rest ih =>
    rcases only x (by simp) with ⟨y,here⟩ | failed
    · rcases ih fun z member => only z (List.mem_cons_of_mem _ member) with ⟨⟨ys,all⟩,each⟩ | ⟨failed,z,member,cause⟩
      · refine .inl ⟨⟨y :: ys,by simp [List.mapM_cons,here,all]⟩,fun z member => ?_⟩
        rcases List.mem_cons.mp member with rfl | later
        · exact ⟨y,here⟩
        · exact each z later
      · exact .inr ⟨by simp [List.mapM_cons,here,failed],z,List.mem_cons_of_mem _ member,cause⟩
    · exact .inr ⟨by simp [List.mapM_cons,failed],x,by simp,failed⟩

theorem mapM_exact (step : α → Except ε β) (result : α → β) (xs : List α) (each : ∀ x ∈ xs, step x = .ok (result x)) :
    xs.mapM step = .ok (xs.map result) := by
  induction xs with
  | nil => rfl
  | cons x rest ih =>
    rw [List.mapM_cons,each x (by simp),ih fun y member => each y (List.mem_cons_of_mem _ member)]
    rfl

namespace Net

variable {net : Net} {t p : Nat}

def arcsOf (net : Net) (t p : Nat) : ArcLists :=
  ⟨((net.row t).flow p).inputs (net.places[p]?.getD ""),((net.row t).flow p).outputs (net.places[p]?.getD "")⟩

theorem arcsAt_exact (sound : net.Sound) (t : Nat) (known : p < net.places.size) :
    net.arcsAt (net.row t).guard (net.row t).cap (net.row t).pre (net.row t).delta p =
      if (net.row t).produced p < wordLimit then .ok (net.arcsOf t p) else .error (.overflow .add) := by
  unfold arcsAt arcsOf
  rw [fetch_inside _ _ known,ok_bind,Row.flowAt_exact (sound.rows t),Array.getElem?_eq_getElem known]
  split <;> rfl

theorem arcLists_start (sound : net.Sound) (inside : t < net.transitions.size) :
    net.arcLists t = (do
      let lists ← (net.row t).touched.mapM (net.arcsAt (net.row t).guard (net.row t).cap (net.row t).pre (net.row t).delta)
      return ⟨lists.flatMap (·.inputs),lists.flatMap (·.outputs)⟩) := by
  obtain ⟨guard,cap,pre,delta⟩ := row_fetched sound inside
  unfold arcLists
  rw [guard,ok_bind,cap,ok_bind,pre,ok_bind,delta,ok_bind]
  rfl

theorem arcLists_ok (sound : net.Sound) (inside : t < net.transitions.size)
    (fits : ∀ p, (net.row t).produced p < wordLimit) :
    net.arcLists t = .ok ⟨(net.row t).touched.flatMap fun p => (net.arcsOf t p).inputs,
      (net.row t).touched.flatMap fun p => (net.arcsOf t p).outputs⟩ := by
  have each : ∀ p ∈ (net.row t).touched,
      net.arcsAt (net.row t).guard (net.row t).cap (net.row t).pre (net.row t).delta p = .ok (net.arcsOf t p) := by
    intro p member
    rw [arcsAt_exact sound t (Row.touched_inside (sound.rows t) member),if_pos (fits p)]
  rw [arcLists_start sound inside,mapM_exact _ _ _ each,ok_bind,List.flatMap_map,List.flatMap_map]
  rfl

theorem arcLists_overflow (sound : net.Sound) (inside : t < net.transitions.size) (p : Nat)
    (exceeds : wordLimit ≤ (net.row t).produced p) : net.arcLists t = .error (.overflow .add) := by
  have only : ∀ p ∈ (net.row t).touched,
      (∃ lists, net.arcsAt (net.row t).guard (net.row t).cap (net.row t).pre (net.row t).delta p = .ok lists) ∨
        net.arcsAt (net.row t).guard (net.row t).cap (net.row t).pre (net.row t).delta p = .error (.overflow .add) := by
    intro p member
    rw [arcsAt_exact sound t (Row.touched_inside (sound.rows t) member)]
    split
    · exact .inl ⟨_,rfl⟩
    · exact .inr rfl
  have member : p ∈ (net.row t).touched := by
    apply Classical.byContradiction
    intro missing
    obtain ⟨_,_,pre,delta⟩ := Row.untouched _ _ missing
    unfold Row.produced wordLimit at exceeds
    omega
  rw [arcLists_start sound inside]
  rcases mapM_cases _ _ _ only with ⟨_,each⟩ | ⟨failed,_⟩
  · obtain ⟨lists,ok⟩ := each p member
    rw [arcsAt_exact sound t (Row.touched_inside (sound.rows t) member),if_neg (by omega)] at ok
    cases ok
  · rw [failed]
    rfl

end Net

end TimePetri
