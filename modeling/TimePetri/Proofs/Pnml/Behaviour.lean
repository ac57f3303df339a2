import Mathlib
import TimePetri.Proofs.Net.WellFormed
import TimePetri.Proofs.Pnml.Export

namespace TimePetri.Pnml

open Net

-- A document is an ordinary net: its tokens are counted without a limit, a transition
-- asks for its inputs alone, takes them and puts its outputs in their place.
def weightAt (arcs : List (Nat × Int64)) (place : Nat) : Int :=
  ((arcs.filter fun arc => arc.1 = place).map fun arc => arc.2.toInt).sum

def Transition.Enabled (transition : Transition) (tokens : Nat → Int) : Prop :=
  ∀ arc ∈ transition.inputs, arc.2.toInt ≤ tokens arc.1

instance (transition : Transition) (tokens : Nat → Int) : Decidable (transition.Enabled tokens) :=
  inferInstanceAs (Decidable (∀ arc ∈ transition.inputs, arc.2.toInt ≤ tokens arc.1))

def Transition.fire (transition : Transition) (tokens : Nat → Int) (place : Nat) : Int :=
  tokens place - weightAt transition.inputs place + weightAt transition.outputs place

def Document.start (document : Document) (place : Nat) : Int :=
  (document.places[place]?.map (·.initial.toInt)).getD 0

inductive Document.Fires (document : Document) : (Nat → Int) → List Nat → (Nat → Int) → Prop where
  | nil (tokens : Nat → Int) : Fires document tokens [] tokens
  | cons (found : document.transitions[t]? = some transition) (enabled : transition.Enabled tokens)
      (rest : Fires document (transition.fire tokens) ts last) : Fires document tokens (t :: ts) last

-- Names, labels and initial tokens are those of the net, each at its number.
structure Document.Shows (document : Document) (net : Net) : Prop where
  name : document.name = net.name
  places : document.places.size = net.places.size
  place : ∀ (p : Nat) (place : Place), document.places[p]? = some place →
    net.places[p]? = some place.name ∧ net.placeLabels[p]? = some place.label ∧ place.initial = net.initial.get p
  transitions : document.transitions.length = net.transitions.size
  transition : ∀ (t : Nat) (transition : Transition), document.transitions[t]? = some transition →
    net.transitions[t]? = some transition.name ∧ net.transitionLabels[t]? = some transition.label

structure Sorted (places : Nat) (arcs : List (Nat × Int64)) : Prop where
  increasing : arcs.Pairwise fun one other => one.1 < other.1
  inside : ∀ arc ∈ arcs, arc.1 < places
  positive : ∀ arc ∈ arcs, 0 < arc.2

def Overflows (net : Net) (m : Marking) (ts : List Nat) : Prop :=
  ∃ done t rest middle, ts = done ++ t :: rest ∧ Net.Fires net m done middle ∧ net.isEnabled middle t = .ok true ∧
    net.fire middle t = .error (.overflow .add)

variable {net : Net} {document : Document} {transition : Transition} {transitions : List Transition}
  {m last : Marking} {t places : Nat} {ts : List Nat} {tokens : Nat → Int}

theorem weightAt_atoms (atoms : List Atom) (valid : Canonical atoms) (p : Nat) :
    weightAt (atoms.map fun a => (a.place,a.mult)) p = (lookup p atoms).toInt := by
  induction atoms with
  | nil => rfl
  | cons a rest ih =>
    obtain ⟨above,_,tail⟩ := (canonical_cons _ _).mp valid
    have later := ih tail
    unfold weightAt at later ⊢
    rw [List.map_cons,List.filter_cons,lookup]
    by_cases here : a.place = p
    · subst here
      rw [lookup_below _ _ above,Int64.toInt_zero] at later
      simp [later]
    · simp [here,later]

theorem weightAt_toPairs (m : Marking) (p : Nat) : weightAt m.toPairs p = m.count p := weightAt_atoms m.atoms m.canonical p

theorem toPairs_sorted (m : Marking) (within : m.Within places) (nonneg : ∀ p, 0 ≤ m.count p) :
    Sorted places m.toPairs := by
  have positive := positive_atoms nonneg
  have inside := within_atoms within
  unfold Marking.toPairs
  constructor
  case increasing => exact List.pairwise_map.mpr m.canonical.1
  case inside =>
    intro arc member
    obtain ⟨a,inAtoms,rfl⟩ := List.mem_map.mp member
    exact inside a inAtoms
  case positive =>
    intro arc member
    obtain ⟨a,inAtoms,rfl⟩ := List.mem_map.mp member
    exact positive a inAtoms

theorem placesOf_shown (sound : net.Sound) : (placesOf net).size = net.places.size ∧
    ∀ (p : Nat) (place : Place), (placesOf net)[p]? = some place →
      net.places[p]? = some place.name ∧ net.placeLabels[p]? = some place.label ∧ place.initial = net.initial.get p := by
  unfold placesOf
  refine ⟨by simp [sound.placeLabels],fun p place found => ?_⟩
  simp only [Array.getElem?_mapIdx,Array.getElem?_zip_eq_some,Option.map_eq_some_iff] at found
  obtain ⟨⟨name,label⟩,⟨named,labelled⟩,rfl⟩ := found
  exact ⟨named,labelled,rfl⟩

theorem described_sorted (sound : net.Sound) (described : Describes net t transition) :
    Sorted net.places.size transition.inputs ∧ Sorted net.places.size transition.outputs := by
  obtain ⟨after,outputs,counts⟩ := described.outputs
  rw [described.inputs,outputs]
  refine ⟨toPairs_sorted _ (sound.rows t).guardWithin (sound.rows t).guard,toPairs_sorted _ ?_ fun p => ?_⟩
  · intro p present
    rw [counts,returned] at present
    by_cases guarded : (net.row t).guard.count p = 0
    · exact (sound.rows t).deltaWithin p (by omega)
    · exact (sound.rows t).guardWithin p guarded
  · rw [counts]
    exact returned_nonneg sound t p

theorem enabled_described (sound : net.Sound) (free : ∀ cap ∈ net.cap, cap.isEmpty = true)
    (inside : t < net.transitions.size) (described : Describes net t transition) (m : Marking) :
    net.isEnabled m t = .ok (decide (transition.Enabled m.count)) := by
  obtain ⟨guard,cap,_,_⟩ := row_fetched sound inside
  have uncapped : (net.row t).cap.atoms = [] := by
    simpa [Marking.isEmpty] using free _ (Array.mem_of_getElem? ((fetch_ok _ _ _).mp cap))
  have same : meets (net.row t).guard m = decide (transition.Enabled m.count) := by
    rw [Bool.eq_iff_iff,decide_eq_true_iff]
    unfold meets Transition.Enabled
    simp [described.inputs,Marking.toPairs,Marking.count,Int64.le_iff_toInt_le]
  have below : staysBelow (net.row t).cap m = true := by simp [staysBelow,uncapped]
  unfold isEnabled
  rw [guard,ok_bind,same,cap,ok_bind,below]
  by_cases enabled : transition.Enabled m.count <;> simp [enabled]

theorem fire_described (described : Describes net t transition) (m : Marking) (p : Nat) :
    transition.fire m.count p = m.count p + (net.row t).delta.count p := by
  obtain ⟨after,outputs,counts⟩ := described.outputs
  unfold Transition.fire
  rw [described.inputs,outputs,weightAt_toPairs,weightAt_toPairs,counts,returned]
  omega

structure Exported (net : Net) (document : Document) : Prop where
  sound : net.Sound
  free : ∀ cap ∈ net.cap, cap.isEmpty = true
  shows : document.Shows net
  described : ∀ (t : Nat) (transition : Transition), document.transitions[t]? = some transition → Describes net t transition

theorem Exported.inside (exported : Exported net document) (found : document.transitions[t]? = some transition) :
    t < net.transitions.size := by
  rw [← exported.shows.transitions]
  exact (List.getElem?_eq_some_iff.mp found).1

theorem Exported.found (exported : Exported net document) (inside : t < net.transitions.size) :
    ∃ transition, document.transitions[t]? = some transition := by
  rw [← exported.shows.transitions] at inside
  exact ⟨_,List.getElem?_eq_getElem inside⟩

theorem Exported.step (exported : Exported net document) (found : document.transitions[t]? = some transition)
    (m : Marking) :
    net.isEnabled m t = .ok (decide (transition.Enabled m.count)) ∧
      ((∃ next, net.fire m t = .ok next ∧ next.count = transition.fire m.count) ∨
        net.fire m t = .error (.overflow .add) ∧ ∃ p, ¬ Fits (transition.fire m.count p)) := by
  have inside := exported.inside found
  have described := exported.described t transition found
  refine ⟨enabled_described exported.sound exported.free inside described m,?_⟩
  simp only [fire_described described]
  rcases fire_exact exported.sound.tabled inside m with ⟨next,fired,counts⟩ | failed
  · exact .inl ⟨next,fired,funext fun p => (counts p).trans (fire_described described m p).symm⟩
  · exact .inr failed

theorem Exported.runs (exported : Exported net document) (fires : Net.Fires net m ts last) :
    document.Fires m.count ts last.count := by
  induction fires with
  | nil => exact .nil _
  | cons enabled fired _ ih =>
    obtain ⟨transition,found⟩ := exported.found (exported.sound.tabled.guard ▸ enabled_inside enabled)
    obtain ⟨decided,⟨next,same,counts⟩ | ⟨failed,_⟩⟩ := exported.step found _
    · cases fired.symm.trans same
      rw [counts] at ih
      exact .cons found (by simpa using decided.symm.trans enabled) ih
    · cases fired.symm.trans failed

theorem Exported.follows (exported : Exported net document) {final : Nat → Int}
    (fires : document.Fires tokens ts final) (m : Marking) (same : m.count = tokens) :
    (∃ last, Net.Fires net m ts last ∧ last.count = final) ∨ Overflows net m ts := by
  induction fires generalizing m with
  | nil => exact .inl ⟨m,.nil m,same⟩
  | cons found enabled _ ih =>
    subst same
    obtain ⟨decided,fired⟩ := exported.step found m
    rw [decide_eq_true enabled] at decided
    rcases fired with ⟨next,fired,counts⟩ | ⟨failed,_⟩
    · rcases ih next counts with ⟨last,rest,reached⟩ | ⟨done,u,rest,middle,split,reaches,further,failed⟩
      · exact .inl ⟨last,.cons decided fired rest,reached⟩
      · exact .inr ⟨_ :: done,u,rest,middle,by rw [split]; rfl,.cons decided fired reaches,further,failed⟩
    · exact .inr ⟨[],_,_,m,rfl,.nil m,decided,failed⟩

theorem exportNet_exported (sound : net.Sound) (exported : (exportNet net).value = .ok document) :
    Exported net document := by
  rcases exportNet_exact sound with ⟨_,_,_,failed⟩ | ⟨free,⟨transitions,complete,described⟩ | ⟨failed,_⟩⟩
  · cases exported.symm.trans failed
  · cases exported.symm.trans complete
    obtain ⟨size,places⟩ := placesOf_shown sound
    have length : transitions.length = net.transitions.size := by rw [← described.length_eq,List.length_range]
    have each : ∀ (t : Nat) (transition : Transition), transitions[t]? = some transition → Describes net t transition := by
      intro t transition found
      have inside := (List.getElem?_eq_some_iff.mp found).1
      obtain ⟨other,same,here⟩ := described_at described (length ▸ inside)
      cases found.symm.trans same
      exact here
    exact ⟨sound,free,⟨rfl,size,places,length,fun t transition found =>
      ⟨(each t transition found).name,(each t transition found).label⟩⟩,each⟩
  · cases exported.symm.trans failed

theorem Exported.start (exported : Exported net document) : document.start = net.initial.count := by
  funext p
  unfold Document.start
  cases found : document.places[p]? with
  | some place =>
    obtain ⟨_,_,initial⟩ := exported.shows.place p place found
    simp [initial,Marking.count]
  | none =>
    have outside := Array.getElem?_eq_none_iff.mp found
    rw [exported.shows.places] at outside
    apply Classical.byContradiction
    intro present
    have within := exported.sound.initialWithin p (Ne.symm present)
    omega

theorem export_behaviour (strict : Bool) (text : String) (net : Net) (document : Document)
    (parsed : (parse strict text).value = .ok net) (exported : (exportNet net).value = .ok document) :
    document.Shows net ∧
    (∀ transition ∈ document.transitions,
      Sorted document.places.size transition.inputs ∧ Sorted document.places.size transition.outputs) ∧
    (∀ (t : Nat) (transition : Transition), document.transitions[t]? = some transition → ∀ m : Marking,
      net.isEnabled m t = .ok (decide (transition.Enabled m.count)) ∧
        ((∃ next, net.fire m t = .ok next ∧ ∀ p,
            next.count p = m.count p - weightAt transition.inputs p + weightAt transition.outputs p) ∨
          net.fire m t = .error (.overflow .add) ∧ ∃ p, ¬ Fits (transition.fire m.count p))) ∧
    (∀ ts last, Net.Fires net net.initial ts last → document.Fires document.start ts last.count) ∧
    ∀ ts tokens, document.Fires document.start ts tokens →
      (∃ last, Net.Fires net net.initial ts last ∧ last.count = tokens) ∨ Overflows net net.initial ts := by
  have complete := exportNet_exported (parse_sound strict text net parsed).1 exported
  rw [complete.start,complete.shows.places]
  refine ⟨complete.shows,?_,?_,fun ts last => complete.runs,fun ts tokens fires => complete.follows fires net.initial rfl⟩
  · intro transition member
    obtain ⟨t,found⟩ := List.mem_iff_getElem?.mp member
    exact described_sorted complete.sound (complete.described t transition found)
  · intro t transition found m
    obtain ⟨enabled,fired⟩ := complete.step found m
    refine ⟨enabled,fired.imp_left fun ⟨next,same,counts⟩ => ⟨next,same,fun p => congrFun counts p⟩⟩

def looped : Net :=
  ⟨"",#["p","q"],#["start",""],#["t","u"],#["",""],#[.unconstrained,.unconstrained],
    #[Marking.empty.set 0 3,Marking.empty.set 1 1],#[.empty,.empty],
    #[Marking.empty.set 0 (-1),Marking.empty.set 1 (-1)],
    #[(Marking.empty.set 0 (-1)).set 1 2,(Marking.empty.set 0 1).set 1 (-1)],Marking.empty.set 0 3,#[[],[]]⟩

def loopedDocument : Document :=
  ⟨"",#[⟨"p","start",3⟩,⟨"q","",0⟩],[⟨"t","",[(0,3)],[(0,2),(1,2)]⟩,⟨"u","",[(1,1)],[(0,1)]⟩]⟩

theorem export_behaviour_looped :
    (parse false "pl p : start (3)\ntr t p?2 p -> q*2\ntr u q -> p").value = .ok looped ∧
      (exportNet looped).value = .ok loopedDocument ∧
      Net.Fires looped looped.initial [0,1,0] ((Marking.empty.set 0 2).set 1 3) ∧
      loopedDocument.Fires loopedDocument.start [0,1,0] ((Marking.empty.set 0 2).set 1 3).count := by
  have parsed : (parse false "pl p : start (3)\ntr t p?2 p -> q*2\ntr u q -> p").value = .ok looped := by cbv
  have exported : (exportNet looped).value = .ok loopedDocument := by cbv
  have fires : Net.Fires looped looped.initial [0,1,0] ((Marking.empty.set 0 2).set 1 3) := by
    have first : looped.fire looped.initial 0 = .ok ((Marking.empty.set 0 2).set 1 2) := by decide
    have second : looped.fire ((Marking.empty.set 0 2).set 1 2) 1 = .ok ((Marking.empty.set 0 3).set 1 1) := by decide
    have third : looped.fire ((Marking.empty.set 0 3).set 1 1) 0 = .ok ((Marking.empty.set 0 2).set 1 3) := by decide
    exact .cons (by decide) first (.cons (by decide) second (.cons (by decide) third (.nil _)))
  exact ⟨parsed,exported,fires,(export_behaviour _ _ _ _ parsed exported).2.2.2.1 _ _ fires⟩

end TimePetri.Pnml
