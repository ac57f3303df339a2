import TimePetri.Proofs.Pnml.Behaviour
import TimePetri.Proofs.Pnml.Markup
import TimePetri.Proofs.Print.Texts
import TimePetri.Proofs.Script.Glyphs
import TimePetri.Proofs.Script.Numbers

namespace TimePetri.Pnml

open Script Document

-- What the document of a net that was read can count on: names and labels as a text
-- spells them, names of their own for places and transitions, arcs to places that are there.
structure Document.Proper (document : Document) : Prop where
  name : document.name = "" ∨ IsName document.name.toList
  placeName : ∀ place ∈ document.places, IsName place.name.toList
  placeLabel : ∀ place ∈ document.places, place.label = "" ∨ IsLabel place.label.toList
  transitionName : ∀ transition ∈ document.transitions, IsName transition.name.toList
  transitionLabel : ∀ transition ∈ document.transitions, transition.label = "" ∨ IsLabel transition.label.toList
  placesDistinct : (document.places.toList.map (·.name)).Nodup
  transitionsDistinct : (document.transitions.map (·.name)).Nodup
  initial : ∀ place ∈ document.places, 0 ≤ place.initial.toInt
  inputs : ∀ transition ∈ document.transitions, Sorted document.places.size transition.inputs
  outputs : ∀ transition ∈ document.transitions, Sorted document.places.size transition.outputs

variable {net : Net} {document : Document} {transition : Transition} {place : Place} {tag content name label : String}
  {arc : Nat × Int64} {w : Int64}

theorem Exported.placeNames (exported : Exported net document) :
    document.places.toList.map (·.name) = net.places.toList := by
  refine List.ext_getElem? fun p => ?_
  rw [List.getElem?_map,Array.getElem?_toList,Array.getElem?_toList]
  cases found : document.places[p]? with
  | some place => exact (exported.shows.place p place found).1.symm
  | none =>
    have outside := Array.getElem?_eq_none_iff.mp found
    rw [exported.shows.places] at outside
    exact (Array.getElem?_eq_none_iff.mpr outside).symm

theorem Exported.transitionNames (exported : Exported net document) :
    document.transitions.map (·.name) = net.transitions.toList := by
  refine List.ext_getElem? fun t => ?_
  rw [List.getElem?_map,Array.getElem?_toList]
  cases found : document.transitions[t]? with
  | some transition => exact (exported.shows.transition t transition found).1.symm
  | none =>
    have outside := List.getElem?_eq_none_iff.mp found
    rw [exported.shows.transitions] at outside
    exact (Array.getElem?_eq_none_iff.mpr outside).symm

theorem Exported.proper (exported : Exported net document) (spelled : net.Spelled) : document.Proper := by
  have placeAt : ∀ place ∈ document.places, ∃ p, net.places[p]? = some place.name ∧
      net.placeLabels[p]? = some place.label ∧ place.initial = net.initial.get p := by
    intro place member
    obtain ⟨p,found⟩ := Array.mem_iff_getElem?.mp member
    exact ⟨p,exported.shows.place p place found⟩
  have transitionAt : ∀ transition ∈ document.transitions, ∃ t, Describes net t transition := by
    intro transition member
    obtain ⟨t,found⟩ := List.mem_iff_getElem?.mp member
    exact ⟨t,exported.described t transition found⟩
  constructor
  case name => exact exported.shows.name ▸ spelled.name
  case placeName =>
    intro place member
    obtain ⟨_,named,_⟩ := placeAt place member
    exact spelled.places _ (Array.mem_of_getElem? named)
  case placeLabel =>
    intro place member
    obtain ⟨_,_,labelled,_⟩ := placeAt place member
    exact spelled.placeLabels _ (Array.mem_of_getElem? labelled)
  case transitionName =>
    intro transition member
    obtain ⟨_,described⟩ := transitionAt transition member
    exact spelled.transitions _ (Array.mem_of_getElem? described.name)
  case transitionLabel =>
    intro transition member
    obtain ⟨_,described⟩ := transitionAt transition member
    exact spelled.transitionLabels _ (Array.mem_of_getElem? described.label)
  case placesDistinct => exact exported.placeNames ▸ exported.sound.placeNames
  case transitionsDistinct => exact exported.transitionNames ▸ exported.sound.transitionNames
  case initial =>
    intro place member
    obtain ⟨p,_,_,initial⟩ := placeAt place member
    rw [initial]
    exact exported.sound.initial p
  case inputs =>
    intro transition member
    obtain ⟨_,described⟩ := transitionAt transition member
    exact exported.shows.places ▸ (described_sorted exported.sound described).1
  case outputs =>
    intro transition member
    obtain ⟨_,described⟩ := transitionAt transition member
    exact exported.shows.places ▸ (described_sorted exported.sound described).2

theorem export_proper {strict : Bool} {text : String} (parsed : (Net.parse strict text).value = .ok net)
    (exported : (exportNet net).value = .ok document) : document.Proper := by
  obtain ⟨sound,spelled⟩ := Net.parse_sound strict text net parsed
  exact (exportNet_exported sound exported).proper spelled

theorem Document.Proper.inside (proper : document.Proper) (member : transition ∈ document.transitions)
    (here : arc ∈ transition.inputs ++ transition.outputs) : arc.1 < document.places.size := by
  rcases List.mem_append.mp here with input | output
  · exact (proper.inputs _ member).inside _ input
  · exact (proper.outputs _ member).inside _ output

theorem Document.Proper.nonneg (proper : document.Proper) (member : transition ∈ document.transitions)
    (here : arc ∈ transition.inputs ++ transition.outputs) : 0 ≤ arc.2.toInt := by
  have positive : 0 < arc.2 := by
    rcases List.mem_append.mp here with input | output
    · exact (proper.inputs _ member).positive _ input
    · exact (proper.outputs _ member).positive _ output
  have exact := Int64.lt_iff_toInt_lt.mp positive
  rw [Int64.toInt_zero] at exact
  omega

namespace Document

theorem nameAt_found (inside : arc.1 < document.places.size) :
    ∃ place, fetch document.places arc.1 = .ok place ∧ document.nameAt arc.1 = place.name := by
  refine ⟨_,fetch_inside _ _ inside,?_⟩
  rw [nameAt,Array.getElem?_eq_getElem inside]
  rfl

theorem arcsOf_cases {element : Element} (member : element ∈ document.arcsOf transition) :
    ∃ arc ∈ transition.inputs ++ transition.outputs,
      element = document.inputElement transition arc ∨ element = document.outputElement transition arc := by
  rcases List.mem_append.mp member with input | output
  · obtain ⟨arc,found,rfl⟩ := List.mem_map.mp input
    exact ⟨arc,List.mem_append_left _ found,.inl rfl⟩
  · obtain ⟨arc,found,rfl⟩ := List.mem_map.mp output
    exact ⟨arc,List.mem_append_right _ found,.inr rfl⟩

theorem arcElements_exact (proper : document.Proper) (member : transition ∈ document.transitions) :
    document.arcElements transition = (document.arcsOf transition).map .ok := by
  unfold arcElements arcsOf
  rw [List.map_append,List.map_map,List.map_map]
  congr 1
  · refine List.map_congr_left fun arc input => ?_
    obtain ⟨place,fetched,named⟩ := nameAt_found (proper.inside member (List.mem_append_left _ input))
    rw [Function.comp_apply,inputArc,inputElement,fetched,named]
    rfl
  · refine List.map_congr_left fun arc output => ?_
    obtain ⟨place,fetched,named⟩ := nameAt_found (proper.inside member (List.mem_append_right _ output))
    rw [Function.comp_apply,outputArc,outputElement,fetched,named]
    rfl

theorem elements_exact (proper : document.Proper) : document.elements = (document.nodes ++ document.arcs).map .ok := by
  have arcs : document.transitions.flatMap document.arcElements = document.arcs.map .ok := by
    rw [arcs,List.map_flatMap]
    exact List.flatMap_congr fun transition member => arcElements_exact proper member
  rw [elements,arcs,nodes,List.map_append,List.map_append,List.map_map,List.map_map]
  rfl

theorem continued_append (lines others : List String) : continued (lines ++ others) = continued lines ++ continued others := by
  apply String.toList_inj.mp
  rw [String.toList_append,continued_chars,continued_chars,continued_chars,List.flatMap_append]

theorem continued_elements (depth : Nat) (elements : List Element) :
    String.join (elements.map fun element => continued (element.lines depth)) = continued (linesOfAll depth elements) := by
  induction elements with
  | nil => rfl
  | cons element rest ih => rw [List.map_cons,String.join_cons,ih,linesOfAll,continued_append]

theorem intercalate_continued (first : String) (lines : List String) :
    "\n".intercalate (first :: lines) = first ++ continued lines := by
  apply String.toList_inj.mp
  induction lines generalizing first with
  | nil => simp [continued]
  | cons line rest ih =>
    rw [String.intercalate_cons_cons]
    simp only [String.toList_append,ih,continued_chars,List.flatMap_cons,List.append_assoc]
    rfl

theorem root_lines (document : Document) :
    document.opening ++ linesOfAll 3 (document.nodes ++ document.arcs) ++ closing = declaration :: document.root.lines 0 := by
  have flush : ∀ line, indented 0 line = line := fun line => String.empty_append
  simp only [opening,closing,root,page,Element.lines,linesOfAll,flush,List.cons_append,List.append_assoc,
    List.nil_append,List.append_nil]

theorem render_exact (proper : document.Proper) :
    document.render = ⟨declaration ++ String.ofList (document.root.written 0),none⟩ := by
  have pieces : document.pieces = ("\n".intercalate document.opening ::
      ((document.nodes ++ document.arcs).map (fun element => continued (element.lines 3)) ++ [continued closing])).map .ok := by
    simp only [Document.pieces,elements_exact proper,List.map_cons,List.map_append,List.map_map]
    rfl
  obtain ⟨others,opened⟩ : ∃ others, document.opening = declaration :: others := ⟨_,rfl⟩
  have lines := root_lines document
  rw [opened,List.cons_append,List.cons_append,List.cons.injEq] at lines
  rw [render,pieces,Net.written_texts,opened,intercalate_continued,Element.written,← lines.2,String.ofList_toList]
  rw [String.join_cons,String.join_append,continued_elements,continued_append,continued_append]
  simp [String.append_assoc]

theorem write_unbounded (proper : document.Proper) :
    document.write .unbounded = .ok (declaration ++ String.ofList (document.root.written 0)) := by
  rw [write,render_exact proper]
  rfl

theorem write_text {sink : Sink} {xml : String} (proper : document.Proper) (written : document.write sink = .ok xml) :
    xml = declaration ++ String.ofList (document.root.written 0) := by
  rw [write,render_exact proper] at written
  unfold Sink.accept at written
  split at written
  · cases written
  · dsimp only at written
    split at written
    · cases written
    · cases written
      rfl

end Document

theorem isLabel_inLine {cs : List Char} (isLabel : IsLabel cs) : '\n' ∉ cs := by
  cases isLabel with
  | bare c cs _ word =>
    intro member
    have blank := word _ member
    revert blank
    decide
  | braced tail =>
    intro member
    rcases List.mem_cons.mp member with opening | later
    · revert opening
      decide
    · exact (tail_inLine tail _ later).1 rfl

theorem name_inLine (isName : IsName name.toList) : '\n' ∉ name.toList := fun member => (isName_inLine isName _ member).1 rfl

theorem displayName_inLine (isName : IsName name.toList) (spelled : label = "" ∨ IsLabel label.toList) :
    '\n' ∉ (displayName name label).toList := by
  unfold displayName
  split
  · exact name_inLine isName
  · next some =>
    have isLabel := spelled.resolve_left (by simpa using some)
    simp [name_inLine isName,isLabel_inLine isLabel]

theorem decimal_inLine (nonneg : 0 ≤ w.toInt) : '\n' ∉ (decimal w).toList := by
  rw [decimal_digits nonneg,String.toList_ofList]
  intro member
  have isDigit := digits_only w _ member
  revert isDigit
  decide

theorem isTag_letters (tag : String) (letters : (tag.toList.all Char.isAlpha && !tag.isEmpty) = true) : IsTag tag := by
  rw [Bool.and_eq_true] at letters
  exact ⟨by simpa using letters.2,List.all_eq_true.mp letters.1⟩

theorem labelled_plain (isTag : IsTag tag) (line : '\n' ∉ content.toList) : (labelled tag content).Plain := by
  refine .node isTag (List.forall_mem_nil _) fun child member => ?_
  rw [List.mem_singleton.mp member]
  exact .text (isTag_letters _ (by decide)) line

theorem arcElement_plain (id source target : String) (nonneg : 0 ≤ w.toInt) : (arcElement id source target w).Plain := by
  refine .node (isTag_letters _ (by decide)) (fun pair member => ?_) fun child member => ?_
  · fin_cases member
    · exact isTag_letters "id" (by decide)
    · exact isTag_letters "source" (by decide)
    · exact isTag_letters "target" (by decide)
  · split at member
    · cases member
    · rw [List.mem_singleton.mp member]
      exact labelled_plain (isTag_letters _ (by decide)) (decimal_inLine nonneg)

namespace Document

theorem place_plain (proper : document.Proper) (member : place ∈ document.places) : place.element.Plain := by
  have display := displayName_inLine (proper.placeName _ member) (proper.placeLabel _ member)
  refine .node (isTag_letters _ (by decide)) (fun pair here => ?_) fun child here => ?_
  · rw [List.mem_singleton.mp here]
    exact isTag_letters "id" (by decide)
  · rcases List.mem_cons.mp here with rfl | later
    · exact labelled_plain (isTag_letters _ (by decide)) display
    · split at later
      · cases later
      · rw [List.mem_singleton.mp later]
        exact labelled_plain (isTag_letters _ (by decide)) (decimal_inLine (proper.initial _ member))

theorem transition_plain (proper : document.Proper) (member : transition ∈ document.transitions) :
    transition.element.Plain := by
  refine .node (isTag_letters _ (by decide)) (fun pair here => ?_) fun child here => ?_
  · rw [List.mem_singleton.mp here]
    exact isTag_letters "id" (by decide)
  · rw [List.mem_singleton.mp here]
    exact labelled_plain (isTag_letters _ (by decide))
      (displayName_inLine (proper.transitionName _ member) (proper.transitionLabel _ member))

theorem arc_plain (proper : document.Proper) {element : Element} (member : element ∈ document.arcs) : element.Plain := by
  obtain ⟨transition,inside,here⟩ := List.mem_flatMap.mp member
  obtain ⟨arc,found,rfl | rfl⟩ := arcsOf_cases here <;> exact arcElement_plain _ _ _ (proper.nonneg inside found)

theorem content_plain (proper : document.Proper) : ∀ element ∈ document.nodes ++ document.arcs, element.Plain := by
  intro element member
  rcases List.mem_append.mp member with node | arc
  · rcases List.mem_append.mp node with isPlace | isTransition
    · obtain ⟨place,found,rfl⟩ := List.mem_map.mp isPlace
      exact place_plain proper (Array.mem_toList_iff.mp found)
    · obtain ⟨transition,found,rfl⟩ := List.mem_map.mp isTransition
      exact transition_plain proper found
  · exact arc_plain proper arc

theorem netId_inLine (proper : document.Proper) : '\n' ∉ document.netId.toList := by
  unfold netId
  split
  · decide
  · next named => exact name_inLine (proper.name.resolve_left (by simpa using named))

theorem root_plain (proper : document.Proper) : document.root.Plain := by
  have page : document.page.Plain := by
    refine .node (isTag_letters _ (by decide)) (fun pair here => ?_) (content_plain proper)
    rw [List.mem_singleton.mp here]
    exact isTag_letters "id" (by decide)
  refine .node (isTag_letters _ (by decide)) (fun pair here => ?_) fun child here => ?_
  · rw [List.mem_singleton.mp here]
    exact isTag_letters "xmlns" (by decide)
  · rw [List.mem_singleton.mp here]
    refine .node (isTag_letters _ (by decide)) (fun pair here => ?_) fun child here => ?_
    · fin_cases here
      · exact isTag_letters "id" (by decide)
      · exact isTag_letters "type" (by decide)
    · rcases List.mem_cons.mp here with rfl | later
      · exact labelled_plain (isTag_letters _ (by decide)) (netId_inLine proper)
      · rw [List.mem_singleton.mp later]
        exact page

theorem tree_unique {one other : Element} (plain : one.Plain) (otherPlain : other.Plain)
    (same : declaration ++ String.ofList (one.written 0) = declaration ++ String.ofList (other.written 0)) : one = other := by
  have chars := String.ofList_injective ((String.append_right_inj _).mp same)
  exact (Element.unique 0 one other plain otherPlain [] [] (by rw [chars])).1

theorem write_unique (proper : document.Proper) {element : Element} (plain : element.Plain)
    (same : document.write .unbounded = .ok (declaration ++ String.ofList (element.written 0))) : element = document.root :=
  tree_unique plain (root_plain proper) (write_text proper same)

end Document

end TimePetri.Pnml
