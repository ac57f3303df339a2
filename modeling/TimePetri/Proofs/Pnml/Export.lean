import Mathlib
import TimePetri.Proofs.Marking.Sum
import TimePetri.Proofs.Net.Sound
import TimePetri.Pnml.Export

namespace TimePetri.Pnml

open Net

variable {net : Net} {t : Nat} {ts : List Nat} {transition : Transition} {transitions : List Transition}

-- What a transition gives out where the document puts back all that it asks for.
def returned (net : Net) (t p : Nat) : Int := (net.row t).guard.count p + (net.row t).delta.count p

-- A transition as the document says it, with exact sums for its outputs.
structure Describes (net : Net) (t : Nat) (transition : Transition) : Prop where
  name : net.transitions[t]? = some transition.name
  label : net.transitionLabels[t]? = some transition.label
  inputs : transition.inputs = (net.row t).guard.toPairs
  outputs : ∃ after : Marking, transition.outputs = after.toPairs ∧ ∀ p, after.count p = returned net t p

structure Inhibited (net : Net) (t : Nat) (name : String) : Prop where
  name : net.transitions[t]? = some name
  here : ∃ cap, net.cap[t]? = some cap ∧ cap.isEmpty = false
  first : ∀ u < t, ∀ cap, net.cap[u]? = some cap → cap.isEmpty = true

theorem returned_nonneg (sound : net.Sound) (t p : Nat) : 0 ≤ returned net t p := by
  have guarded := (sound.rows t).guarded p
  have produced := (sound.rows t).produced p
  unfold returned
  omega

-- What is taken is guarded, so that its opposite is a word too.
theorem taken_fits (sound : net.Sound) (t : Nat) :
    ∃ taken, (net.row t).pre.neg = .ok taken ∧ ∀ p, taken.count p = -(net.row t).pre.count p := by
  rcases (net.row t).pre.neg_exact with negated | ⟨_,p,least⟩
  · exact negated
  · have guarded := (sound.rows t).guarded p
    have range := (net.row t).guard.count_range p
    omega

theorem exportTransition_exact (sound : net.Sound) (inside : t < net.transitions.size) :
    (∃ transition, (exportTransition net t).value = .ok transition ∧ Describes net t transition) ∨
      (exportTransition net t).value = .error (.overflow .add) ∧ ∃ p, wordLimit ≤ returned net t p := by
  have inLabels : t < net.transitionLabels.size := sound.tabled.transitionLabels ▸ inside
  obtain ⟨guard,_,pre,delta⟩ := row_fetched sound inside
  obtain ⟨taken,negated,_⟩ := taken_fits sound t
  unfold exportTransition
  simp only [guard,pre,delta,negated,fetch_inside _ _ inside,fetch_inside _ _ inLabels,ok_bind,pure_ok]
  rcases (net.row t).guard.add_exact (net.row t).delta with ⟨after,added,counts⟩ | ⟨failed,p,exceeds⟩
  · rw [added]
    exact .inl ⟨_,rfl,Array.getElem?_eq_getElem inside,Array.getElem?_eq_getElem inLabels,rfl,after,rfl,counts⟩
  · rw [failed]
    have nonneg := returned_nonneg sound t p
    refine .inr ⟨rfl,p,?_⟩
    unfold returned at nonneg ⊢
    unfold Fits wordLimit at exceeds
    unfold wordLimit
    omega

theorem exportAll_exact (sound : net.Sound) (ts : List Nat) (inside : ∀ t ∈ ts, t < net.transitions.size) :
    (∃ transitions, (exportAll net ts).value = .ok transitions ∧ List.Forall₂ (Describes net) ts transitions) ∨
      (exportAll net ts).value = .error (.overflow .add) ∧ ∃ t ∈ ts, ∃ p, wordLimit ≤ returned net t p := by
  induction ts with
  | nil => exact .inl ⟨[],rfl,.nil⟩
  | cons t rest ih =>
    unfold exportAll Logged.andThen
    rcases exportTransition_exact sound (inside t (by simp)) with ⟨transition,exported,described⟩ | ⟨failed,p,exceeds⟩
    · rw [exported]
      rcases ih fun u member => inside u (List.mem_cons_of_mem _ member) with
        ⟨transitions,all,later⟩ | ⟨failed,u,member,exceeds⟩
      · exact .inl ⟨transition :: transitions,by simp [all,Except.map],.cons described later⟩
      · exact .inr ⟨by simp [failed,Except.map],u,List.mem_cons_of_mem _ member,exceeds⟩
    · rw [failed]
      exact .inr ⟨rfl,t,by simp,p,exceeds⟩

theorem inhibited_exact (sound : net.Sound) :
    (∃ t name, Inhibited net t name ∧ inhibited net = .ok (some name)) ∨
      (∀ cap ∈ net.cap, cap.isEmpty = true) ∧ inhibited net = .ok none := by
  unfold inhibited
  cases found : net.cap.findIdx? (!·.isEmpty) with
  | none => exact .inr ⟨by simpa using found,rfl⟩
  | some t =>
    obtain ⟨inCap,here,first⟩ := Array.findIdx?_eq_some_iff_getElem.mp found
    have inside : t < net.transitions.size := sound.tabled.cap ▸ inCap
    refine .inl ⟨t,net.transitions[t],⟨Array.getElem?_eq_getElem inside,⟨_,Array.getElem?_eq_getElem inCap,by simpa using here⟩,?_⟩,?_⟩
    · intro u before cap row
      obtain ⟨inRows,rfl⟩ := Array.getElem?_eq_some_iff.mp row
      simpa using first u before
    · simp [fetch_inside _ _ inside]

theorem exportNet_exact (sound : net.Sound) :
    (∃ t name, Inhibited net t name ∧ (exportNet net).value = .error (.inhibitor name)) ∨
      (∀ cap ∈ net.cap, cap.isEmpty = true) ∧
        ((∃ transitions, (exportNet net).value = .ok ⟨net.name,placesOf net,transitions⟩ ∧
            List.Forall₂ (Describes net) (List.range net.transitions.size) transitions) ∨
          (exportNet net).value = .error (.fault (.overflow .add)) ∧ ∃ t p, wordLimit ≤ returned net t p) := by
  unfold exportNet
  rcases inhibited_exact sound with ⟨t,name,first,found⟩ | ⟨free,found⟩
  · rw [found]
    exact .inl ⟨t,name,first,rfl⟩
  · rw [found]
    refine .inr ⟨free,?_⟩
    rcases exportAll_exact sound _ fun t member => List.mem_range.mp member with
      ⟨transitions,all,described⟩ | ⟨failed,t,_,exceeds⟩
    · exact .inl ⟨transitions,by simp [all,Except.map],described⟩
    · exact .inr ⟨by simp [failed,Except.map],t,exceeds⟩

theorem returned_inside (sound : net.Sound) {p : Nat} (exceeds : wordLimit ≤ returned net t p) :
    t < net.transitions.size := by
  apply Classical.byContradiction
  intro outside
  rw [returned,row_outside sound.tabled outside] at exceeds
  simp [Row.empty,wordLimit] at exceeds

theorem returned_overflow (sound : net.Sound) :
    (∃ t p, wordLimit ≤ returned net t p) ↔
      ∃ (t p : Nat) (guard delta : Marking), net.guard[t]? = some guard ∧ net.delta[t]? = some delta ∧
        wordLimit ≤ (guard.get p).toInt + (delta.get p).toInt := by
  constructor
  · rintro ⟨t,p,exceeds⟩
    obtain ⟨guard,_,_,delta⟩ := row_fetched sound (returned_inside sound exceeds)
    exact ⟨t,p,_,_,(fetch_ok _ _ _).mp guard,(fetch_ok _ _ _).mp delta,exceeds⟩
  · rintro ⟨t,p,guard,delta,guardRow,deltaRow,exceeds⟩
    refine ⟨t,p,?_⟩
    unfold returned row
    rw [guardRow,deltaRow]
    exact exceeds

theorem described_at {n : Nat} (described : List.Forall₂ (Describes net) (List.range n) transitions) (inside : t < n) :
    ∃ transition, transitions[t]? = some transition ∧ Describes net t transition := by
  obtain ⟨length,each⟩ := List.forall₂_iff_get.mp described
  have inList : t < transitions.length := by rw [← length,List.length_range]; exact inside
  refine ⟨transitions[t],List.getElem?_eq_getElem inList,?_⟩
  simpa using each t (by simpa using inside) inList

theorem described_fits (described : Describes net t transition) (p : Nat) : returned net t p < wordLimit := by
  obtain ⟨after,_,counts⟩ := described.outputs
  have range := (after.count_range p).2
  rwa [counts] at range

-- The guard and the change of a transition have the only sum that may be too large, and it
-- is formed once no transition is inhibited.
theorem parse_export_fault (strict : Bool) (text : String) (net : Net) (parsed : (parse strict text).value = .ok net) :
    (∀ pre ∈ net.pre, ∃ taken, pre.neg = .ok taken ∧ ∀ p, taken.count p = -pre.count p) ∧
    ((∃ document, (exportNet net).value = .ok document) ∨
      (∃ t name, Inhibited net t name ∧ (exportNet net).value = .error (.inhibitor name)) ∨
      (exportNet net).value = .error (.fault (.overflow .add))) ∧
    ((exportNet net).value = .error (.fault (.overflow .add)) ↔
      (∀ cap ∈ net.cap, cap.isEmpty = true) ∧
        ∃ (t p : Nat) (guard delta : Marking), net.guard[t]? = some guard ∧ net.delta[t]? = some delta ∧
          wordLimit ≤ (guard.get p).toInt + (delta.get p).toInt) := by
  have sound := (parse_sound strict text net parsed).1
  rw [← returned_overflow sound]
  refine ⟨?_,?_⟩
  · intro pre member
    obtain ⟨t,inside,same⟩ := Array.mem_iff_getElem.mp member
    have row : (net.row t).pre = pre := by simp [Net.row,inside,same]
    have fits := taken_fits sound t
    rwa [row] at fits
  · rcases exportNet_exact sound with ⟨t,name,first,failed⟩ | ⟨free,⟨transitions,exported,described⟩ | ⟨failed,exceeds⟩⟩
    · refine ⟨.inr (.inl ⟨t,name,first,failed⟩),?_⟩
      rw [failed]
      constructor
      · intro same
        cases same
      · rintro ⟨free,_⟩
        obtain ⟨cap,row,here⟩ := first.here
        rw [free cap (Array.mem_of_getElem? row)] at here
        cases here
    · refine ⟨.inl ⟨_,exported⟩,?_⟩
      rw [exported]
      constructor
      · intro same
        cases same
      · rintro ⟨_,t,p,exceeds⟩
        obtain ⟨transition,_,here⟩ := described_at described (returned_inside sound exceeds)
        have fits := described_fits here p
        omega
    · exact ⟨.inr (.inr failed),fun _ => ⟨free,exceeds⟩,fun _ => failed⟩

-- Nine quintillion tokens are looked at and as many are put beside them.
def heaped : Net :=
  ⟨"",#["p"],#[""],#["t"],#[""],#[.unconstrained],#[Marking.empty.set 0 9000000000000000000],#[.empty],#[.empty],
    #[Marking.empty.set 0 9000000000000000000],.empty,#[[]]⟩

theorem parse_export_fault_heaped :
    (parse false "tr t p?9E -> p*9E\n").value = .ok heaped ∧
      (exportNet heaped).value = .error (.fault (.overflow .add)) := by
  have parsed : (parse false "tr t p?9E -> p*9E\n").value = .ok heaped := by cbv
  refine ⟨parsed,(parse_export_fault _ _ _ parsed).2.2.mpr ⟨by decide,?_⟩⟩
  exact ⟨0,0,_,_,rfl,rfl,by decide⟩

end TimePetri.Pnml
