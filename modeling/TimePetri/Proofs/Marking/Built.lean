import Mathlib
import TimePetri.Proofs.Marking.Encoding

namespace TimePetri

open AtomTable (Built)

variable {m other : Marking} {table : AtomTable} {place : Nat} {f : Nat → Int}

namespace AtomTable

def Denotes (table : AtomTable) (f : Nat → Int) : Prop := ∀ p, ∃ w, table.multAt p = .ok w ∧ w.toInt = f p

-- What each operation makes of a table with these counts, and when it is refused.
structure Pointwise (table : AtomTable) (f : Nat → Int) : Prop where
  addAt : ∀ p change,
    (Fits (f p + change.toInt) → ∃ next, table.addAt p change = .ok next ∧
      Denotes next fun q => if q = p then f p + change.toInt else f q) ∧
    (¬ Fits (f p + change.toInt) → table.addAt p change = .error (.overflow .add))
  addAtChecked : ∀ p change,
    (Fits (f p + change.toInt) → ∃ next, table.addAtChecked p change = .ok (next,none) ∧
      Denotes next fun q => if q = p then f p + change.toInt else f q) ∧
    (¬ Fits (f p + change.toInt) → table.addAtChecked p change = .ok (table,some (.overflow p)))
  raise : ∀ p value, ∃ next, table.raise p value = .ok next ∧ Denotes next fun q =>
    if q = p ∧ value ≠ 0 then (if f p = 0 then value.toInt else max (f p) value.toInt) else f q
  lower : ∀ p value, ∃ next, table.lower p value = .ok next ∧ Denotes next fun q =>
    if q = p ∧ value ≠ 0 then (if f p = 0 then value.toInt else min (f p) value.toInt) else f q
  add : ∀ other g, Built other → Denotes other g →
    (∃ next, table.add other = .ok next ∧ Denotes next fun p => f p + g p) ∨
      table.add other = .error (.overflow .add) ∧ ∃ p, ¬ Fits (f p + g p)
  neg : (∃ next, table.neg = .ok next ∧ Denotes next fun p => -f p) ∨
    table.neg = .error (.overflow .neg) ∧ ∃ p, f p = -wordLimit
  sub : ∀ other g, Built other → Denotes other g →
    (∃ next, table.sub other = .ok next ∧ Denotes next fun p => f p - g p) ∨
      table.sub other = .error (.overflow .neg) ∧ (∃ p, g p = -wordLimit) ∨
      table.sub other = .error (.overflow .add) ∧ ∃ p, ¬ Fits (f p - g p)
  same : ∀ other g, Built other → Denotes other g → (table = other ↔ ∀ p, f p = g p)

end AtomTable

open AtomTable (Denotes Pointwise)

namespace Marking

structure Carried (m : Marking) : Prop where
  get : ∀ p, m.table.multAt p = .ok (m.get p)
  addAt : ∀ p change, m.table.addAt p change = Marking.table <$> m.addAt p change
  addAtChecked : ∀ p change, m.table.addAtChecked p change = .ok (match m.addAt? p change with
    | .ok next => (next.table,none)
    | .error refusal => (m.table,some refusal))
  raise : ∀ p value, m.table.raise p value = .ok (m.raise p value).table
  lower : ∀ p value, m.table.lower p value = .ok (m.lower p value).table
  add : ∀ other : Marking, m.table.add other.table = Marking.table <$> m.add other
  neg : m.table.neg = Marking.table <$> m.neg
  sub : ∀ other : Marking, m.table.sub other.table = Marking.table <$> m.sub other
  decode : ∀ bytes, m.encode = .ok bytes → AtomTable.decode bytes = m.table

theorem carried (m : Marking) : Carried m where
  get := multAt_exact m
  addAt := addAtTable_exact m
  addAtChecked := addAtChecked_exact m
  raise := raiseTable_exact m
  lower := lowerTable_exact m
  add := addTable_exact m
  neg := negTable_exact m
  sub := subTable_exact m
  decode := fun _ encoded => decodeTable_exact encoded

theorem denotes_exact (m : Marking) : Denotes m.table f ↔ ∀ p, m.count p = f p := by
  unfold Denotes
  simp only [multAt_exact,Except.ok.injEq,exists_eq_left']
  rfl

theorem denotes_count (m : Marking) : Denotes m.table m.count := m.denotes_exact.mpr fun _ => rfl

theorem convert_marking (m : Marking) : m.table.convert = .ok (.ok m.table) := by
  rw [convert_exact]
  exact congrArg (fun result => Except.ok (table <$> result)) ((ofAtoms_exact m.atoms m).mpr rfl)

end Marking

namespace AtomTable

variable {next : AtomTable}

theorem built_marking (built : Built table) : ∃ m : Marking, m.table = table := by
  induction built with
  | empty => exact ⟨.empty,rfl⟩
  | collected pairs done =>
    rw [Marking.collect_exact] at done
    obtain ⟨m,_,same⟩ := map_ok.mp done
    exact ⟨m,same⟩
  | @converted given table done =>
    rw [Marking.convert_exact] at done
    obtain ⟨m,_,same⟩ := map_ok.mp (Except.ok.inj done)
    exact ⟨m,same⟩
  | added place change _ done ih =>
    obtain ⟨m,rfl⟩ := ih
    rw [Marking.addAtTable_exact] at done
    obtain ⟨next,_,same⟩ := map_ok.mp done
    exact ⟨next,same⟩
  | addedChecked place change _ done ih =>
    obtain ⟨m,rfl⟩ := ih
    rw [Marking.addAtChecked_exact] at done
    cases added : m.addAt? place change with
    | ok next => rw [added] at done; cases done; exact ⟨next,rfl⟩
    | error refusal => rw [added] at done; cases done; exact ⟨m,rfl⟩
  | raised place value _ done ih =>
    obtain ⟨m,rfl⟩ := ih
    rw [Marking.raiseTable_exact] at done
    exact ⟨_,Except.ok.inj done⟩
  | lowered place value _ done ih =>
    obtain ⟨m,rfl⟩ := ih
    rw [Marking.lowerTable_exact] at done
    exact ⟨_,Except.ok.inj done⟩
  | sum _ _ done ih otherIh =>
    obtain ⟨m,rfl⟩ := ih
    obtain ⟨other,rfl⟩ := otherIh
    rw [Marking.addTable_exact] at done
    obtain ⟨next,_,same⟩ := map_ok.mp done
    exact ⟨next,same⟩
  | difference _ _ done ih otherIh =>
    obtain ⟨m,rfl⟩ := ih
    obtain ⟨other,rfl⟩ := otherIh
    rw [Marking.subTable_exact] at done
    obtain ⟨next,_,same⟩ := map_ok.mp done
    exact ⟨next,same⟩
  | negated _ done ih =>
    obtain ⟨m,rfl⟩ := ih
    rw [Marking.negTable_exact] at done
    obtain ⟨next,_,same⟩ := map_ok.mp done
    exact ⟨next,same⟩
  | decoded _ done ih =>
    obtain ⟨m,rfl⟩ := ih
    exact ⟨m,(Marking.decodeTable_exact done).symm⟩

end AtomTable

namespace Marking

theorem addAt_denotes (m : Marking) (p : Nat) (change : Int64) :
    (Fits (m.count p + change.toInt) → ∃ next, m.addAt p change = .ok next ∧
      Denotes next.table fun q => if q = p then m.count p + change.toInt else m.count q) ∧
    (¬ Fits (m.count p + change.toInt) → m.addAt p change = .error (.overflow .add)) := by
  rcases addAt_exact m p change with ⟨⟨next,added⟩,fits⟩ | ⟨failed,exceeds⟩
  · refine ⟨fun _ => ⟨next,added,next.denotes_exact.mpr fun q => ?_⟩,fun exceeds => absurd fits exceeds⟩
    rw [addAt_count added]
    by_cases here : q = p
    · rw [if_pos here,if_pos here,here]
    · rw [if_neg here,if_neg here,Int.add_zero]
  · exact ⟨fun fits => absurd fits exceeds,fun _ => failed⟩

theorem update_denotes (pick : Int64 → Int64 → Int64) (exact : Int → Int → Int)
    (same : ∀ a b, (pick a b).toInt = exact a.toInt b.toInt) (m : Marking) (p : Nat) (value : Int64) :
    Denotes (update pick m p value).table fun q =>
      if q = p ∧ value ≠ 0 then (if m.count p = 0 then value.toInt else exact (m.count p) value.toInt) else m.count q := by
  refine (denotes_exact _).mpr fun q => ?_
  unfold count
  rw [update_get]
  simp only [← word_zero]
  split
  · split
    · rfl
    · exact same _ _
  · rfl

theorem max_exact (a b : Int64) : (max a b).toInt = max a.toInt b.toInt := by
  have larger : max a b = if a ≤ b then b else a := rfl
  rw [larger]
  split
  · next le => have := Int64.le_iff_toInt_le.mp le; omega
  · next gt => have := mt Int64.le_iff_toInt_le.mpr gt; omega

theorem min_exact (a b : Int64) : (min a b).toInt = min a.toInt b.toInt := by
  have smaller : min a b = if a ≤ b then a else b := rfl
  rw [smaller]
  split
  · next le => have := Int64.le_iff_toInt_le.mp le; omega
  · next gt => have := mt Int64.le_iff_toInt_le.mpr gt; omega

theorem sub_exact (m other : Marking) :
    (∃ next, m.sub other = .ok next ∧ ∀ p, next.count p = m.count p - other.count p) ∨
      m.sub other = .error (.overflow .neg) ∧ (∃ p, other.count p = -wordLimit) ∨
      m.sub other = .error (.overflow .add) ∧ ∃ p, ¬ Fits (m.count p - other.count p) := by
  rcases neg_exact other with ⟨opposite,negated,opposites⟩ | ⟨failed,least⟩
  · have onwards : m.sub other = m.add opposite := by rw [sub,negated,ok_bind]
    simp only [onwards,Int.sub_eq_add_neg,← opposites]
    rcases add_exact m opposite with added | failed
    · exact .inl added
    · exact .inr (.inr failed)
  · exact .inr (.inl ⟨by rw [sub,failed,error_bind],least⟩)

theorem pointwise (m : Marking) : Pointwise m.table m.count := by
  have all {table : AtomTable} {g : Nat → Int} (built : Built table) (denotes : Denotes table g) :
      ∃ other : Marking, other.table = table ∧ g = other.count := by
    obtain ⟨other,rfl⟩ := AtomTable.built_marking built
    exact ⟨other,rfl,funext fun p => (other.denotes_exact.mp denotes p).symm⟩
  constructor
  case addAt =>
    intro p change
    obtain ⟨fits,exceeds⟩ := addAt_denotes m p change
    rw [addAtTable_exact]
    refine ⟨fun fit => ?_,fun exceed => by rw [exceeds exceed]; rfl⟩
    obtain ⟨next,added,denotes⟩ := fits fit
    exact ⟨next.table,by rw [added]; rfl,denotes⟩
  case addAtChecked =>
    intro p change
    obtain ⟨fits,exceeds⟩ := addAt_denotes m p change
    rw [addAtChecked_exact,addAt?]
    refine ⟨fun fit => ?_,fun exceed => by rw [exceeds exceed]⟩
    obtain ⟨next,added,denotes⟩ := fits fit
    exact ⟨next.table,by rw [added],denotes⟩
  case raise => exact fun p value => ⟨_,raiseTable_exact m p value,update_denotes max max max_exact m p value⟩
  case lower => exact fun p value => ⟨_,lowerTable_exact m p value,update_denotes min min min_exact m p value⟩
  case add =>
    intro table g built denotes
    obtain ⟨other,rfl,rfl⟩ := all built denotes
    rw [addTable_exact]
    rcases add_exact m other with ⟨next,added,counts⟩ | ⟨failed,exceeds⟩
    · exact .inl ⟨next.table,by rw [added]; rfl,next.denotes_exact.mpr counts⟩
    · exact .inr ⟨by rw [failed]; rfl,exceeds⟩
  case neg =>
    rw [negTable_exact]
    rcases neg_exact m with ⟨next,negated,counts⟩ | ⟨failed,least⟩
    · exact .inl ⟨next.table,by rw [negated]; rfl,next.denotes_exact.mpr counts⟩
    · exact .inr ⟨by rw [failed]; rfl,least⟩
  case sub =>
    intro table g built denotes
    obtain ⟨other,rfl,rfl⟩ := all built denotes
    rw [subTable_exact]
    rcases sub_exact m other with ⟨next,subtracted,counts⟩ | ⟨failed,least⟩ | ⟨failed,exceeds⟩
    · exact .inl ⟨next.table,by rw [subtracted]; rfl,next.denotes_exact.mpr counts⟩
    · exact .inr (.inl ⟨by rw [failed]; rfl,least⟩)
    · exact .inr (.inr ⟨by rw [failed]; rfl,exceeds⟩)
  case same =>
    intro table g built denotes
    obtain ⟨other,rfl,rfl⟩ := all built denotes
    exact ⟨fun same p => by rw [(table_exact _ _).mp same],fun same => congrArg Marking.table (ext_count _ _ same)⟩

end Marking

namespace AtomTable

theorem built_pointwise :
    (∀ table, Built table → Canonical table.toList ∧ ∃ f, Denotes table f ∧ Pointwise table f) ∧
      (∀ given : AtomTable, (∃ answer, given.convert = .ok answer) ∧
        (∀ table, given.convert = .ok (.ok table) ↔ table = given ∧ Canonical given.toList) ∧
        ∀ flaw, given.convert = .ok (.error flaw) ↔ FirstFlaw given.toList flaw) ∧
      ∀ m : Marking, Built m.table ∧ m.Carried := by
  refine ⟨fun table built => ?_,fun given => ?_,fun m => ⟨.converted m.convert_marking,m.carried⟩⟩
  · obtain ⟨m,rfl⟩ := built_marking built
    exact ⟨m.canonical,m.count,m.denotes_count,m.pointwise⟩
  · rw [Marking.convert_exact]
    refine ⟨⟨_,rfl⟩,fun table => ?_,fun flaw => ?_⟩
    · rw [Except.ok.injEq,map_ok]
      simp only [Marking.ofAtoms_exact]
      constructor
      · rintro ⟨m,atoms,rfl⟩
        exact ⟨congrArg List.toArray atoms,atoms ▸ m.canonical⟩
      · rintro ⟨rfl,canonical⟩
        exact ⟨⟨table.toList,canonical⟩,rfl,rfl⟩
    · rw [← Marking.ofAtoms_refused]
      cases Marking.ofAtoms given.toList <;> simp

theorem built_pointwise_scattered :
    Built #[⟨1,5⟩,⟨4,-2⟩,⟨7,1⟩] ∧ Canonical [⟨1,5⟩,⟨4,-2⟩,⟨7,1⟩] ∧
      ∃ f, Denotes #[⟨1,5⟩,⟨4,-2⟩,⟨7,1⟩] f ∧ Pointwise #[⟨1,5⟩,⟨4,-2⟩,⟨7,1⟩] f := by
  have done : collect [(7,1),(3,9),(1,5),(4,-2),(3,-9)] = .ok #[⟨1,5⟩,⟨4,-2⟩,⟨7,1⟩] := by cbv
  have built : Built #[⟨1,5⟩,⟨4,-2⟩,⟨7,1⟩] := .collected _ done
  exact ⟨built,built_pointwise.1 _ built⟩

end AtomTable

end TimePetri
