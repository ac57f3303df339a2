import TimePetri.Proofs.Marking.InPlace

namespace TimePetri

variable {xs ys atoms : List Atom} {a b : Atom} {place : Nat} {bound : Nat}

structure Merged (xs ys atoms : List Atom) : Prop where
  canonical : Canonical atoms
  places : ∀ a ∈ atoms, ∃ b ∈ xs ++ ys, b.place = a.place
  sums : ∀ p, (lookup p atoms).toInt = (lookup p xs).toInt + (lookup p ys).toInt

theorem lookup_cons (a : Atom) (rest : List Atom) (p : Nat) :
    lookup p (a :: rest) = if p = a.place then a.mult else lookup p rest := by
  rw [lookup]
  by_cases here : p = a.place
  · rw [if_pos here,if_pos here.symm]
  · rw [if_neg here,if_neg (Ne.symm here)]

theorem Merged.above (merged : Merged xs ys atoms) (first : ∀ a ∈ xs, bound < a.place) (second : ∀ a ∈ ys, bound < a.place) :
    ∀ a ∈ atoms, bound < a.place := by
  intro a member
  obtain ⟨b,source,same⟩ := merged.places a member
  rw [← same]
  rcases List.mem_append.mp source with left | right
  · exact first b left
  · exact second b right

theorem merged_swap (merged : Merged xs ys atoms) : Merged ys xs atoms := by
  refine ⟨merged.canonical,fun a member => ?_,fun p => by rw [merged.sums,Int.add_comm]⟩
  obtain ⟨b,source,same⟩ := merged.places a member
  exact ⟨b,List.mem_append.mpr (List.mem_append.mp source).symm,same⟩

theorem merged_nil (valid : Canonical ys) : Merged [] ys ys :=
  ⟨valid,fun a member => ⟨a,member,rfl⟩,fun p => by simp [lookup]⟩

theorem merged_ahead (merged : Merged xs ys atoms) (present : a.mult ≠ 0) (first : ∀ b ∈ xs, a.place < b.place)
    (second : ∀ b ∈ ys, a.place < b.place) : Merged (a :: xs) ys (a :: atoms) := by
  refine ⟨(canonical_cons _ _).mpr ⟨merged.above first second,present,merged.canonical⟩,?_,fun p => ?_⟩
  · intro b member
    rcases List.mem_cons.mp member with rfl | later
    · exact ⟨b,by simp,rfl⟩
    · obtain ⟨c,source,same⟩ := merged.places b later
      exact ⟨c,List.mem_cons_of_mem _ source,same⟩
  · rw [lookup_cons,lookup_cons]
    split
    · next here => rw [here,lookup_below _ _ second,Int64.toInt_zero,Int.add_zero]
    · exact merged.sums p

theorem merged_both (merged : Merged xs ys atoms) (same : a.place = b.place) (total : Int64)
    (sum : total.toInt = a.mult.toInt + b.mult.toInt) (first : ∀ c ∈ xs, a.place < c.place)
    (second : ∀ c ∈ ys, b.place < c.place) : Merged (a :: xs) (b :: ys) (entry a.place total ++ atoms) := by
  have above := merged.above first (same ▸ second)
  refine ⟨canonical_entry _ _ _ above merged.canonical,?_,fun p => ?_⟩
  · intro c member
    rcases List.mem_append.mp member with here | later
    · exact ⟨a,by simp,by rw [((entry_member _ _ _).mp here).1]⟩
    · obtain ⟨d,source,same⟩ := merged.places c later
      refine ⟨d,?_,same⟩
      rcases List.mem_append.mp source with left | right
      · exact List.mem_append_left _ (List.mem_cons_of_mem _ left)
      · exact List.mem_append_right _ (List.mem_cons_of_mem _ right)
  · rw [lookup_entry _ _ _ _ above,lookup_cons,lookup_cons,← same]
    split
    · exact sum
    · exact merged.sums p

theorem exceeds_elsewhere (exceeds : ¬ Fits ((lookup place xs).toInt + (lookup place ys).toInt))
    (first : ∀ b ∈ xs, bound < b.place) (second : ∀ b ∈ ys, bound < b.place) : place ≠ bound := by
  rintro rfl
  refine exceeds ?_
  rw [lookup_below _ _ first,lookup_below _ _ second]
  decide

def Overlong (xs ys : List Atom) : Prop := ∃ p, ¬ Fits ((lookup p xs).toInt + (lookup p ys).toInt)

theorem overlong_swap (overlong : Overlong xs ys) : Overlong ys xs := by
  obtain ⟨p,exceeds⟩ := overlong
  exact ⟨p,by rwa [Int.add_comm]⟩

theorem overlong_ahead (overlong : Overlong xs ys) (first : ∀ b ∈ xs, a.place < b.place)
    (second : ∀ b ∈ ys, a.place < b.place) : Overlong (a :: xs) ys := by
  obtain ⟨p,exceeds⟩ := overlong
  refine ⟨p,?_⟩
  rwa [lookup_cons,if_neg (exceeds_elsewhere exceeds first second)]

theorem overlong_both (overlong : Overlong xs ys) (same : a.place = b.place) (first : ∀ c ∈ xs, a.place < c.place)
    (second : ∀ c ∈ ys, b.place < c.place) : Overlong (a :: xs) (b :: ys) := by
  obtain ⟨p,exceeds⟩ := overlong
  have elsewhere := exceeds_elsewhere exceeds first (same ▸ second)
  refine ⟨p,?_⟩
  rwa [lookup_cons,lookup_cons,if_neg elsewhere,if_neg (same ▸ elsewhere)]

theorem behind_all (valid : Canonical (b :: ys)) (less : place < b.place) : ∀ c ∈ b :: ys, place < c.place := by
  intro c member
  rcases List.mem_cons.mp member with rfl | later
  · exact less
  · exact Nat.lt_trans less (((canonical_cons _ _).mp valid).1 c later)

theorem merge_exact (validX : Canonical xs) (validY : Canonical ys) :
    (∃ atoms, AtomTable.merge xs ys = .ok atoms ∧ Merged xs ys atoms) ∨
      AtomTable.merge xs ys = .error (.overflow .add) ∧ Overlong xs ys := by
  -- Of the two first atoms the one that is taken lies before all that is left of both lists.
  fun_induction AtomTable.merge xs ys with
  | case1 others => exact .inl ⟨others,rfl,merged_nil validY⟩
  | case2 atoms nonempty => exact .inl ⟨atoms,rfl,merged_swap (merged_nil validX)⟩
  | case3 a xs b ys less ih =>
    obtain ⟨above,present,tail⟩ := (canonical_cons _ _).mp validX
    have ahead := behind_all validY less
    rcases ih tail validY with ⟨atoms,done,merged⟩ | ⟨failed,overlong⟩
    · rw [done]
      exact .inl ⟨a :: atoms,rfl,merged_ahead merged present above ahead⟩
    · rw [failed]
      exact .inr ⟨rfl,overlong_ahead overlong above ahead⟩
  | case4 a xs b ys _ less ih =>
    obtain ⟨above,present,tail⟩ := (canonical_cons _ _).mp validY
    have ahead := behind_all validX less
    rcases ih validX tail with ⟨atoms,done,merged⟩ | ⟨failed,overlong⟩
    · rw [done]
      exact .inl ⟨b :: atoms,rfl,merged_swap (merged_ahead (merged_swap merged) present above ahead)⟩
    · rw [failed]
      exact .inr ⟨rfl,overlong_swap (overlong_ahead (overlong_swap overlong) above ahead)⟩
  | case5 a xs b ys notLess notMore ih =>
    obtain ⟨first,_,tailX⟩ := (canonical_cons _ _).mp validX
    obtain ⟨second,_,tailY⟩ := (canonical_cons _ _).mp validY
    have same : a.place = b.place := Nat.le_antisymm (Nat.le_of_not_lt notMore) (Nat.le_of_not_lt notLess)
    cases total : addWords a.mult b.mult with
    | error fault =>
      obtain ⟨rfl,exceeds⟩ := (checked_error _ _ _).mp total
      refine .inr ⟨rfl,a.place,?_⟩
      rw [lookup_cons,lookup_cons,if_pos rfl,if_pos same]
      rintro ⟨low,high⟩
      omega
    | ok mult =>
      have sum := (checked_ok _ _ _).mp total
      rw [ok_bind]
      rcases ih tailX tailY with ⟨atoms,done,merged⟩ | ⟨failed,overlong⟩
      · rw [done]
        exact .inl ⟨_,rfl,merged_both merged same mult sum first second⟩
      · rw [failed]
        exact .inr ⟨rfl,overlong_both overlong same first second⟩

namespace Marking

theorem addTable_exact (m other : Marking) : m.table.add other.table = table <$> m.add other := by
  unfold AtomTable.add
  change (do return (← AtomTable.merge m.atoms other.atoms).toArray) = _
  rcases merge_exact m.canonical other.canonical with ⟨atoms,done,merged⟩ | ⟨failed,p,exceeds⟩ <;>
    rcases add_exact m other with ⟨next,added,counts⟩ | ⟨refused,q,overflows⟩
  · have same : next = ⟨atoms,merged.canonical⟩ := ext_count _ _ fun p => (counts p).trans (merged.sums p).symm
    rw [done,added,same]
    rfl
  · exact absurd (merged.sums q ▸ word_range (lookup q atoms)) overflows
  · exact absurd (counts p ▸ next.count_range p) exceeds
  · rw [failed,refused]
    rfl

theorem negAll_exact (atoms : List Atom) (valid : Canonical atoms) :
    (∃ flipped, atoms.mapM (fun a => return { a with mult := ← negWord a.mult }) = (.ok flipped : Except Fault _) ∧
        Canonical flipped ∧ flipped.map (·.place) = atoms.map (·.place) ∧
        ∀ p, (lookup p flipped).toInt = -(lookup p atoms).toInt) ∨
      atoms.mapM (fun a => return { a with mult := ← negWord a.mult }) = (.error (.overflow .neg) : Except Fault _) ∧
        ∃ p, (lookup p atoms).toInt = -wordLimit := by
  induction atoms with
  | nil => exact .inl ⟨[],rfl,canonical_nil,rfl,fun p => by simp [lookup]⟩
  | cons a rest ih =>
    obtain ⟨above,present,tail⟩ := (canonical_cons _ _).mp valid
    rw [List.mapM_cons]
    rcases negWord_exact a.mult with ⟨w,negated,opposite⟩ | ⟨failed,least⟩
    · rw [negated,ok_bind,pure_ok,ok_bind]
      rcases ih tail with ⟨flipped,done,canonical,places,opposites⟩ | ⟨failed,p,least⟩
      · have aboveFlipped : ∀ b ∈ flipped, a.place < b.place := by
          intro b member
          have among : b.place ∈ rest.map (·.place) := places ▸ List.mem_map_of_mem member
          obtain ⟨c,inRest,same⟩ := List.mem_map.mp among
          exact same ▸ above c inRest
        have nonzero : w ≠ 0 := by
          rw [ne_eq,word_zero] at present ⊢
          omega
        rw [done]
        refine .inl ⟨⟨a.place,w⟩ :: flipped,rfl,(canonical_cons _ _).mpr ⟨aboveFlipped,nonzero,canonical⟩,?_,fun p => ?_⟩
        · rw [List.map_cons,List.map_cons,places]
        · rw [lookup_cons,lookup_cons]
          split
          · exact opposite
          · exact opposites p
      · rw [failed]
        refine .inr ⟨rfl,p,?_⟩
        rwa [lookup_cons,if_neg]
        rintro rfl
        rw [lookup_below _ _ above] at least
        cases least
    · rw [failed]
      exact .inr ⟨rfl,a.place,by rwa [lookup_cons,if_pos rfl]⟩

theorem negTable_exact (m : Marking) : m.table.neg = table <$> m.neg := by
  unfold AtomTable.neg
  change (do return (← m.atoms.mapM fun a : Atom => return { a with mult := ← negWord a.mult }).toArray) = _
  rcases negAll_exact m.atoms m.canonical with ⟨flipped,done,canonical,_,opposites⟩ | ⟨failed,p,least⟩ <;>
    rcases neg_exact m with ⟨next,negated,counts⟩ | ⟨refused,q,lowest⟩
  · have same : next = ⟨flipped,canonical⟩ := ext_count _ _ fun p => (counts p).trans (opposites p).symm
    rw [done,negated,same]
    rfl
  · have range := word_range (lookup q flipped)
    have opposite : (lookup q flipped).toInt = -m.count q := opposites q
    omega
  · have range := next.count_range p
    have opposite := counts p
    change m.count p = _ at least
    omega
  · rw [failed,refused]
    rfl

theorem subTable_exact (m other : Marking) : m.table.sub other.table = table <$> m.sub other := by
  rw [AtomTable.sub,negTable_exact,sub]
  cases other.neg with
  | error fault => rfl
  | ok opposite => exact addTable_exact m opposite

end Marking

end TimePetri
