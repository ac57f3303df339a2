import TimePetri.Proofs.Net.Displayed
import TimePetri.Proofs.Pnml.Tree

namespace TimePetri.Pnml

open Script Document

structure Transition.Alike (one other : Transition) : Prop where
  name : one.name = other.name
  label : one.label = other.label

variable {document another : Document} {transition : Transition} {name label other : String} {w v : Int64}

theorem displayName_chars (name label : String) :
    (displayName name label).toList = name.toList ++ if label = "" then [] else ':' :: ' ' :: label.toList := by
  unfold displayName
  by_cases none : label = ""
  · rw [if_pos (String.isEmpty_iff.mpr none),if_pos none,List.append_nil]
  · rw [if_neg (by simpa using none),if_neg none]
    simp

theorem displayName_unique (same : displayName name label = displayName name other) : label = other := by
  have chars := congrArg String.toList same
  rw [displayName_chars,displayName_chars,List.append_cancel_left_eq] at chars
  split at chars <;> split at chars
  · next empty otherEmpty => rw [empty,otherEmpty]
  · cases chars
  · cases chars
  · exact String.toList_inj.mp (List.cons.inj (List.cons.inj chars).2).2

theorem counted_unique (tag : String) (usual : Int64)
    (same : (if w = usual then [] else [labelled tag (decimal w)]) = if v = usual then [] else [labelled tag (decimal v)]) :
    w = v := by
  split at same <;> split at same
  · next left right => rw [left,right]
  · cases same
  · cases same
  · simp only [labelled,List.cons.injEq,Element.node.injEq,Element.text.injEq,true_and,and_true] at same
    exact decimal_unique same

theorem place_unique {place another : Place} (same : place.element = another.element) : place = another := by
  simp only [Place.element,labelled,Element.node.injEq,List.cons.injEq,Attribute.mk.injEq,Element.text.injEq,true_and,
    and_true] at same
  obtain ⟨ids,display,initial⟩ := same
  have names := (String.append_right_inj _).mp ids
  rw [names] at display
  have labels := displayName_unique display
  have initials := counted_unique "initialMarking" 0 initial
  cases place
  cases another
  simp_all

theorem transition_unique {another : Transition} (same : transition.element = another.element) :
    transition.Alike another := by
  simp only [Transition.element,labelled,Element.node.injEq,List.cons.injEq,Attribute.mk.injEq,Element.text.injEq,true_and,
    and_true] at same
  have names := (String.append_right_inj _).mp same.1
  exact ⟨names,displayName_unique (names ▸ same.2)⟩

theorem arcElement_unique {id source target id' source' target' : String}
    (same : arcElement id source target w = arcElement id' source' target' v) :
    source = source' ∧ target = target' ∧ w = v := by
  simp only [arcElement,Element.node.injEq,List.cons.injEq,Attribute.mk.injEq,true_and,and_true] at same
  exact ⟨same.1.2.1,same.1.2.2,counted_unique "inscription" 1 same.2⟩

theorem placeId_transitionId (name other : String) : placeId name ≠ transitionId other := by
  intro same
  have chars := congrArg String.toList same
  simp [placeId,transitionId] at chars

theorem placeId_matches (name other : String) : (some (placeId name) == some (transitionId other)) = false := by
  simpa using placeId_transitionId name other

theorem transitionId_matches (name other : String) :
    (some (transitionId name) == some (transitionId other)) = (name == other) := by
  rw [Bool.eq_iff_iff,beq_iff_eq,beq_iff_eq,Option.some_inj]
  exact String.append_right_inj _

theorem arcElement_source (id source target : String) (w : Int64) :
    (arcElement id source target w).value? "source" = some source := rfl

theorem arcElement_target (id source target : String) (w : Int64) :
    (arcElement id source target w).value? "target" = some target := rfl

theorem map_unique {α β : Type} {f : α → β} {xs ys : List α} (each : ∀ x ∈ xs, ∀ y ∈ ys, f x = f y → x = y)
    (same : xs.map f = ys.map f) : xs = ys := by
  induction xs generalizing ys with
  | nil => exact (List.map_eq_nil_iff.mp same.symm).symm
  | cons x xs ih =>
    cases ys with
    | nil => cases same
    | cons y ys =>
      obtain ⟨first,rest⟩ := List.cons_eq_cons.mp same
      rw [each x (by simp) y (by simp) first,
        ih (fun a member b inside => each a (List.mem_cons_of_mem _ member) b (List.mem_cons_of_mem _ inside)) rest]

-- An arc that goes into a transition, and one that goes into it or comes from it.
def Element.enters (name : String) (element : Element) : Bool := element.value? "target" == some (transitionId name)

def Element.meets (name : String) (element : Element) : Bool :=
  element.value? "source" == some (transitionId name) || element.enters name

namespace Document

theorem nameAt_unique (proper : document.Proper) {p q : Nat} (inside : p < document.places.size)
    (within : q < document.places.size) (same : document.nameAt p = document.nameAt q) : p = q := by
  refine (List.getElem?_inj (by simpa using inside) proper.placesDistinct).mp ?_
  unfold nameAt at same
  rw [List.getElem?_map,List.getElem?_map,Array.getElem?_toList,Array.getElem?_toList]
  rw [Array.getElem?_eq_getElem inside,Array.getElem?_eq_getElem within] at same ⊢
  exact congrArg some same

theorem input_unique (proper : document.Proper) {one arc : Nat × Int64} (inside : one.1 < document.places.size)
    (within : arc.1 < document.places.size) {another : Transition}
    (same : document.inputElement transition one = document.inputElement another arc) : one = arc := by
  obtain ⟨sources,_,weights⟩ := arcElement_unique same
  exact Prod.ext (nameAt_unique proper inside within ((String.append_right_inj _).mp sources)) weights

theorem output_unique (proper : document.Proper) {one arc : Nat × Int64} (inside : one.1 < document.places.size)
    (within : arc.1 < document.places.size) {another : Transition}
    (same : document.outputElement transition one = document.outputElement another arc) : one = arc := by
  obtain ⟨_,targets,weights⟩ := arcElement_unique same
  exact Prod.ext (nameAt_unique proper inside within ((String.append_right_inj _).mp targets)) weights

theorem input_enters (document : Document) (transition : Transition) (arc : Nat × Int64) (name : String) :
    (document.inputElement transition arc).enters name = (transition.name == name) ∧
      (document.inputElement transition arc).meets name = (transition.name == name) := by
  simp only [Element.meets,Element.enters,inputElement,arcElement_source,arcElement_target,placeId_matches,
    transitionId_matches,Bool.false_or,and_self]

theorem output_enters (document : Document) (transition : Transition) (arc : Nat × Int64) (name : String) :
    (document.outputElement transition arc).enters name = false ∧
      (document.outputElement transition arc).meets name = (transition.name == name) := by
  simp only [Element.meets,Element.enters,outputElement,arcElement_source,arcElement_target,placeId_matches,
    transitionId_matches,Bool.or_false,and_self]

theorem arcsOf_meets {element : Element} (member : element ∈ document.arcsOf transition) (name : String) :
    element.meets name = (transition.name == name) := by
  obtain ⟨arc,_,rfl | rfl⟩ := arcsOf_cases member
  · exact (input_enters document transition arc name).2
  · exact (output_enters document transition arc name).2

theorem arcsOf_unique (proper : document.Proper) {another : Transition} (names : transition.name = another.name)
    (inside : ∀ arc ∈ transition.inputs ++ transition.outputs, arc.1 < document.places.size)
    (within : ∀ arc ∈ another.inputs ++ another.outputs, arc.1 < document.places.size)
    (same : document.arcsOf transition = document.arcsOf another) :
    transition.inputs = another.inputs ∧ transition.outputs = another.outputs := by
  have entering : ∀ other : Transition, other.name = another.name →
      (∀ element ∈ other.inputs.map (document.inputElement other), element.enters another.name = true) ∧
        ∀ element ∈ (other.outputs.map (document.outputElement other)).head?, element.enters another.name = false := by
    intro other named
    refine ⟨fun element member => ?_,fun element member => ?_⟩
    · obtain ⟨arc,_,rfl⟩ := List.mem_map.mp member
      rw [(input_enters document other arc another.name).1,named,beq_self_eq_true]
    · obtain ⟨arc,_,rfl⟩ := List.mem_map.mp (List.mem_of_mem_head? member)
      exact (output_enters document other arc another.name).1
  obtain ⟨into,outOf⟩ := entering transition names
  obtain ⟨otherInto,otherOutOf⟩ := entering another rfl
  obtain ⟨inputs,outputs⟩ := split_unique (·.enters another.name) same into otherInto outOf otherOutOf
  have renamed : document.inputElement another = document.inputElement transition ∧
      document.outputElement another = document.outputElement transition := by
    constructor <;> funext arc <;> simp only [inputElement,outputElement,names]
  rw [renamed.1] at inputs
  rw [renamed.2] at outputs
  refine ⟨map_unique (fun one first arc second alike => ?_) inputs,map_unique (fun one first arc second alike => ?_) outputs⟩
  · exact input_unique proper (inside _ (List.mem_append_left _ first)) (within _ (List.mem_append_left _ second)) alike
  · exact output_unique proper (inside _ (List.mem_append_right _ first)) (within _ (List.mem_append_right _ second)) alike

-- The arcs of a transition are followed by those of other transitions, which do not meet it.
theorem arcs_unique (proper : document.Proper) {transitions others : List Transition}
    (alike : List.Forall₂ Transition.Alike transitions others)
    (distinct : (transitions.map (·.name)).Nodup)
    (inside : ∀ transition ∈ transitions, ∀ arc ∈ transition.inputs ++ transition.outputs, arc.1 < document.places.size)
    (within : ∀ transition ∈ others, ∀ arc ∈ transition.inputs ++ transition.outputs, arc.1 < document.places.size)
    (same : transitions.flatMap document.arcsOf = others.flatMap document.arcsOf) : transitions = others := by
  induction alike with
  | nil => rfl
  | @cons one other transitions others alike rest ih =>
    obtain ⟨names,labels⟩ := alike
    rw [List.map_cons,List.nodup_cons] at distinct
    have otherNames : transitions.map (·.name) = others.map (·.name) := by
      rw [← List.forall₂_eq_eq_eq,List.forall₂_map_left_iff,List.forall₂_map_right_iff]
      exact rest.imp fun _ _ => Transition.Alike.name
    have meeting : ∀ t : Transition, t.name = one.name → ∀ element ∈ document.arcsOf t, element.meets one.name = true := by
      intro t named element member
      rw [arcsOf_meets member,named,beq_self_eq_true]
    have stops : ∀ later : List Transition, one.name ∉ later.map (·.name) →
        ∀ element ∈ (later.flatMap document.arcsOf).head?, element.meets one.name = false := by
      intro later absent element member
      obtain ⟨t,inLater,here⟩ := List.mem_flatMap.mp (List.mem_of_mem_head? member)
      rw [arcsOf_meets here,beq_eq_false_iff_ne]
      intro named
      exact absent (named ▸ List.mem_map_of_mem inLater)
    rw [List.flatMap_cons,List.flatMap_cons] at same
    obtain ⟨first,later⟩ := split_unique (·.meets one.name) same (meeting one rfl) (meeting other names.symm)
      (stops _ distinct.1) (stops _ (otherNames ▸ distinct.1))
    obtain ⟨inputs,outputs⟩ := arcsOf_unique proper names (inside one (by simp)) (within other (by simp)) first
    rw [ih distinct.2 (fun t member => inside t (List.mem_cons_of_mem _ member))
      (fun t member => within t (List.mem_cons_of_mem _ member)) later]
    cases one
    cases other
    simp_all

theorem placeElements_tag (document : Document) :
    ∀ element ∈ document.places.toList.map Place.element, (element.tag == "place") = true := by
  intro element member
  obtain ⟨place,_,rfl⟩ := List.mem_map.mp member
  exact beq_self_eq_true "place"

theorem transitionElements_tag (document : Document) :
    ∀ element ∈ document.transitions.map Transition.element, (element.tag == "transition") = true := by
  intro element member
  obtain ⟨transition,_,rfl⟩ := List.mem_map.mp member
  exact beq_self_eq_true "transition"

theorem arcs_tag (document : Document) : ∀ element ∈ document.arcs, element.tag = "arc" := by
  intro element member
  obtain ⟨transition,_,here⟩ := List.mem_flatMap.mp member
  obtain ⟨_,_,rfl | rfl⟩ := arcsOf_cases here <;> rfl

theorem arcs_behind (document : Document) : ∀ element ∈ document.arcs.head?, (element.tag == "transition") = false := by
  intro element member
  rw [arcs_tag document element (List.mem_of_mem_head? member)]
  decide

theorem places_before (document : Document) :
    ∀ element ∈ (document.transitions.map Transition.element ++ document.arcs).head?, (element.tag == "place") = false := by
  intro element member
  rcases List.mem_append.mp (List.mem_of_mem_head? member) with transition | arc
  · rw [eq_of_beq (transitionElements_tag document element transition)]
    decide
  · rw [arcs_tag document element arc]
    decide

theorem content_unique (same : document.nodes ++ document.arcs = another.nodes ++ another.arcs) :
    document.places = another.places ∧ List.Forall₂ Transition.Alike document.transitions another.transitions ∧
      document.arcs = another.arcs := by
  rw [nodes,nodes,List.append_assoc,List.append_assoc] at same
  obtain ⟨places,later⟩ := split_unique (·.tag == "place") same (placeElements_tag _) (placeElements_tag _)
    (places_before _) (places_before _)
  obtain ⟨transitions,arcs⟩ := split_unique (·.tag == "transition") later (transitionElements_tag _)
    (transitionElements_tag _) (arcs_behind _) (arcs_behind _)
  refine ⟨Array.toList_inj.mp (map_unique (fun _ _ _ _ => place_unique) places),?_,arcs⟩
  rw [← List.forall₂_eq_eq_eq,List.forall₂_map_left_iff,List.forall₂_map_right_iff] at transitions
  exact transitions.imp fun _ _ => transition_unique

theorem netId_unique (proper : document.Proper) (other : another.Proper) (same : document.netId = another.netId) :
    document.name = another.name := by
  have keyword : ¬ IsName "net".toList := by
    intro isName
    cases isName with
    | bare c cs _ _ free => revert free; decide
  unfold netId at same
  split at same <;> split at same
  · next empty otherEmpty => rw [String.isEmpty_iff.mp empty,String.isEmpty_iff.mp otherEmpty]
  · next some => exact absurd (same ▸ other.name.resolve_left (by simpa using some)) keyword
  · next some _ => exact absurd (same ▸ proper.name.resolve_left (by simpa using some)) keyword
  · exact same

theorem root_unique (proper : document.Proper) (other : another.Proper) (same : document.root = another.root) :
    document = another := by
  simp only [root,page,labelled,Element.node.injEq,List.cons.injEq,Attribute.mk.injEq,true_and,and_true] at same
  obtain ⟨ids,_,contents⟩ := same
  have names := netId_unique proper other ids
  obtain ⟨places,alike,arcs⟩ := content_unique contents
  have sameArcs : document.arcsOf = another.arcsOf := by
    have inputs : document.inputElement = another.inputElement := by
      funext transition arc
      simp only [inputElement,nameAt,places]
    have outputs : document.outputElement = another.outputElement := by
      funext transition arc
      simp only [outputElement,nameAt,places]
    funext transition
    rw [arcsOf,arcsOf,inputs,outputs]
  have transitions : document.transitions = another.transitions := by
    refine arcs_unique proper alike proper.transitionsDistinct (fun t member arc => proper.inside member)
      (fun t member arc here => places ▸ other.inside member here) ?_
    rw [Document.arcs,Document.arcs,← sameArcs] at arcs
    exact arcs
  cases document
  cases another
  simp_all

end Document

theorem write_lossless (strict strict' : Bool) (text text' : String) (net net' : Net) (document document' : Document)
    (parsed : (Net.parse strict text).value = .ok net) (parsed' : (Net.parse strict' text').value = .ok net')
    (exported : (exportNet net).value = .ok document) (exported' : (exportNet net').value = .ok document') :
    (∃ xml, document.write .unbounded = .ok xml) ∧
      ∀ (sink sink' : Sink) (xml : String), document.write sink = .ok xml → document'.write sink' = .ok xml →
        document = document' := by
  have proper := export_proper parsed exported
  have proper' := export_proper parsed' exported'
  refine ⟨⟨_,write_unbounded proper⟩,?_⟩
  intro sink sink' xml written written'
  have same := (write_text proper written).symm.trans (write_text proper' written')
  exact root_unique proper proper' (tree_unique (root_plain proper) (root_plain proper') same)

-- A token that is put back, and one that is put back twice.
def selfLoop : Net :=
  ⟨"",#["p"],#[""],#["t"],#[""],#[.unconstrained],#[Marking.empty.set 0 1],#[.empty],#[Marking.empty.set 0 (-1)],
    #[.empty],.empty,#[[]]⟩

def doubling : Net := { selfLoop with delta := #[Marking.empty.set 0 1] }

def selfLoopDocument (given : Int64) : Document := ⟨"",#[⟨"p","",0⟩],[⟨"t","",[(0,1)],[(0,given)]⟩]⟩

theorem write_lossless_selfLoop :
    (Net.parse false "tr t p -> p\n").value = .ok selfLoop ∧ (exportNet selfLoop).value = .ok (selfLoopDocument 1) ∧
      (Net.parse false "tr t p -> p*2\n").value = .ok doubling ∧ (exportNet doubling).value = .ok (selfLoopDocument 2) ∧
      (∃ xml, (selfLoopDocument 1).write .unbounded = .ok xml) ∧
      ∀ (sink sink' : Sink) (xml : String), (selfLoopDocument 1).write sink = .ok xml →
        (selfLoopDocument 2).write sink' ≠ .ok xml := by
  have once : (Net.parse false "tr t p -> p\n").value = .ok selfLoop := by cbv
  have twice : (Net.parse false "tr t p -> p*2\n").value = .ok doubling := by cbv
  have exported : (exportNet selfLoop).value = .ok (selfLoopDocument 1) := by cbv
  have exported' : (exportNet doubling).value = .ok (selfLoopDocument 2) := by cbv
  obtain ⟨complete,lossless⟩ := write_lossless _ _ _ _ _ _ _ _ once twice exported exported'
  refine ⟨once,exported,twice,exported',complete,?_⟩
  intro sink sink' xml written written'
  exact absurd (lossless sink sink' xml written written') (by decide)

end TimePetri.Pnml
