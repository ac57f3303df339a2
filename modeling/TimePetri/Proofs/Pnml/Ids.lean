import TimePetri.Proofs.Pnml.Lossless

namespace TimePetri.Pnml

open Script Document

-- What has an identifier on the page of a document, by the names that the identifier is made of.
inductive Named where
  | page
  | place (name : String)
  | transition (name : String)
  | input (place transition : String)
  | output (transition place : String)
  deriving DecidableEq

def Named.id : Named → String
  | .page => "page"
  | .place name => placeId name
  | .transition name => transitionId name
  | .input source target => "p2t-" ++ source ++ "-" ++ target
  | .output source target => "t2p-" ++ source ++ "-" ++ target

def Named.parts : Named → List String
  | .input source target | .output source target => [source,target]
  | _ => []

def Document.namedArcs (document : Document) (transition : Transition) : List Named :=
  transition.inputs.map (fun arc => .input (document.nameAt arc.1) transition.name) ++
    transition.outputs.map fun arc => .output transition.name (document.nameAt arc.1)

def Document.named (document : Document) : List Named :=
  .page :: ((document.places.toList.map (·.name)).map .place ++ (document.transitions.map (·.name)).map .transition ++
    document.transitions.flatMap document.namedArcs)

variable {document : Document} {transition : Transition} {one other : Named} {name first second : String}
  {rest more : List Char}

theorem name_dash (isName : IsName first.toList) (otherName : IsName second.toList)
    (same : first.toList ++ '-' :: rest = second.toList ++ '-' :: more) : first = second ∧ rest = more := by
  have stops : ∀ tail, Stops isIdentChar ('-' :: tail) := fun tail c here => by cases here; decide
  obtain ⟨names,tails⟩ := name_ends isName otherName (stops rest) (stops more) same
  exact ⟨String.toList_inj.mp names,(List.cons.inj tails).2⟩

theorem input_chars (source target : String) :
    (Named.input source target).id.toList = 'p' :: '2' :: 't' :: '-' :: (source.toList ++ '-' :: target.toList) := by
  simp [Named.id]

theorem output_chars (source target : String) :
    (Named.output source target).id.toList = 't' :: '2' :: 'p' :: '-' :: (source.toList ++ '-' :: target.toList) := by
  simp [Named.id]

theorem page_chars : Named.page.id.toList = ['p','a','g','e'] := by decide

theorem placeId_chars (name : String) : (Named.place name).id.toList = 'p' :: 'l' :: '_' :: name.toList := by
  simp [Named.id,placeId]

theorem transitionId_chars (name : String) : (Named.transition name).id.toList = 't' :: 'r' :: '_' :: name.toList := by
  simp [Named.id,transitionId]

theorem id_unique (spelled : ∀ part ∈ one.parts, IsName part.toList) (otherSpelled : ∀ part ∈ other.parts, IsName part.toList)
    (same : one.id = other.id) : one = other := by
  have chars := congrArg String.toList same
  cases one <;> cases other <;>
    simp only [page_chars,placeId_chars,transitionId_chars,input_chars,output_chars,List.cons.injEq,
      Char.reduceEq,true_and,false_and,and_false] at chars
  case page.page => rfl
  case place.place => rw [String.toList_inj.mp chars]
  case transition.transition => rw [String.toList_inj.mp chars]
  case input.input =>
    obtain ⟨rfl,tails⟩ := name_dash (spelled _ (by simp [Named.parts])) (otherSpelled _ (by simp [Named.parts])) chars
    rw [String.toList_inj.mp tails]
  case output.output =>
    obtain ⟨rfl,tails⟩ := name_dash (spelled _ (by simp [Named.parts])) (otherSpelled _ (by simp [Named.parts])) chars
    rw [String.toList_inj.mp tails]

theorem idsOfAll_flatMap (elements : List Element) : idsOfAll elements = elements.flatMap Element.ids := by
  induction elements with
  | nil => rfl
  | cons element rest ih => rw [idsOfAll,ih,List.flatMap_cons]

theorem ids_each {α : Type} (xs : List α) (element : α → Element) (id : α → String)
    (each : ∀ x, (element x).ids = [id x]) : (xs.map element).flatMap Element.ids = xs.map id := by
  rw [List.flatMap_map,List.map_eq_flatMap]
  exact List.flatMap_congr fun x _ => each x

theorem value_ids {element : Element} {id : String} (named : element.value? "id" = some id) : id ∈ element.ids := by
  cases element with
  | text => cases named
  | node tag attributes children =>
    obtain ⟨pair,found,rfl⟩ := Option.map_eq_some_iff.mp named
    have isId := List.find?_some found
    exact List.mem_append_left _ (List.mem_map_of_mem (List.mem_filter.mpr ⟨List.mem_of_find?_eq_some found,isId⟩))

theorem place_ids (place : Place) : place.element.ids = [placeId place.name] := by
  unfold Place.element
  split <;> rfl

theorem transition_ids (transition : Transition) : transition.element.ids = [transitionId transition.name] := rfl

theorem arc_ids (id source target : String) (w : Int64) : (arcElement id source target w).ids = [id] := by
  unfold arcElement
  split <;> rfl

namespace Document

theorem page_ids (document : Document) : document.page.ids = document.named.map Named.id := by
  have arcs : ∀ transition, (document.arcsOf transition).flatMap Element.ids = (document.namedArcs transition).map Named.id := by
    intro transition
    rw [arcsOf,namedArcs,List.flatMap_append,List.map_append,List.map_map,List.map_map]
    congr 1
    · exact ids_each _ _ _ fun arc => arc_ids _ _ _ _
    · exact ids_each _ _ _ fun arc => arc_ids _ _ _ _
  change "page" :: idsOfAll (document.nodes ++ document.arcs) = _
  rw [idsOfAll_flatMap,Document.nodes,Document.arcs,List.flatMap_append,List.flatMap_append,ids_each _ _ _ place_ids,
    ids_each _ _ _ transition_ids,List.flatMap_assoc]
  simp only [arcs,named,List.map_cons,List.map_append,List.map_map,List.map_flatMap]
  rfl

theorem namedArcs_place (member : one ∈ document.namedArcs transition) :
    ∃ arc ∈ transition.inputs ++ transition.outputs,
      one = .input (document.nameAt arc.1) transition.name ∨ one = .output transition.name (document.nameAt arc.1) := by
  rcases List.mem_append.mp member with input | output
  · obtain ⟨arc,found,rfl⟩ := List.mem_map.mp input
    exact ⟨arc,List.mem_append_left _ found,.inl rfl⟩
  · obtain ⟨arc,found,rfl⟩ := List.mem_map.mp output
    exact ⟨arc,List.mem_append_right _ found,.inr rfl⟩

theorem named_cases (member : one ∈ document.named) :
    one = .page ∨ (∃ place ∈ document.places, one = .place place.name) ∨
      (∃ transition ∈ document.transitions, one = .transition transition.name) ∨
      ∃ transition ∈ document.transitions, one ∈ document.namedArcs transition := by
  rcases List.mem_cons.mp member with page | later
  · exact .inl page
  refine .inr ?_
  rcases List.mem_append.mp later with nodes | arcs
  · rcases List.mem_append.mp nodes with isPlace | isTransition
    · obtain ⟨name,named,rfl⟩ := List.mem_map.mp isPlace
      obtain ⟨place,inside,rfl⟩ := List.mem_map.mp named
      exact .inl ⟨place,Array.mem_toList_iff.mp inside,rfl⟩
    · obtain ⟨name,named,rfl⟩ := List.mem_map.mp isTransition
      obtain ⟨transition,inside,rfl⟩ := List.mem_map.mp named
      exact .inr (.inl ⟨transition,inside,rfl⟩)
  · exact .inr (.inr (List.mem_flatMap.mp arcs))

theorem named_spelled (proper : document.Proper) (member : one ∈ document.named) :
    ∀ part ∈ one.parts, IsName part.toList := by
  intro part here
  rcases named_cases member with rfl | ⟨_,_,rfl⟩ | ⟨_,_,rfl⟩ | ⟨transition,inside,found⟩
  · cases here
  · cases here
  · cases here
  · obtain ⟨arc,held,kinds⟩ := namedArcs_place found
    obtain ⟨place,fetched,named⟩ := nameAt_found (proper.inside inside held)
    have placeName := proper.placeName place (Array.mem_of_getElem? ((fetch_ok _ _ _).mp fetched))
    have transitionName := proper.transitionName transition inside
    rw [named] at kinds
    rcases kinds with rfl | rfl <;> rcases List.mem_pair.mp here with rfl | rfl <;> assumption

theorem namedArcs_distinct (proper : document.Proper) (member : transition ∈ document.transitions) :
    (document.namedArcs transition).Nodup := by
  have apart : ∀ (arcs : List (Nat × Int64)) (label : String → Named), (∀ one other, label one = label other → one = other) →
      Sorted document.places.size arcs → (arcs.map fun arc => label (document.nameAt arc.1)).Nodup := by
    intro arcs label injective sorted
    refine List.pairwise_map.mpr (sorted.increasing.imp_of_mem fun one other less same => ?_)
    have places := nameAt_unique proper (sorted.inside _ one) (sorted.inside _ other) (injective _ _ same)
    omega
  refine List.nodup_append'.mpr ⟨?_,?_,?_⟩
  · exact apart _ (.input · transition.name) (fun _ _ same => (Named.input.inj same).1) (proper.inputs _ member)
  · exact apart _ (.output transition.name ·) (fun _ _ same => (Named.output.inj same).2) (proper.outputs _ member)
  · intro one input output
    obtain ⟨_,_,rfl⟩ := List.mem_map.mp input
    obtain ⟨_,_,same⟩ := List.mem_map.mp output
    cases same

theorem named_distinct (proper : document.Proper) : document.named.Nodup := by
  have arcs : (document.transitions.flatMap document.namedArcs).Nodup := by
    refine List.nodup_flatMap.mpr ⟨fun transition member => namedArcs_distinct proper member,?_⟩
    refine (List.pairwise_map.mp proper.transitionsDistinct).imp fun differ one left right => ?_
    obtain ⟨_,_,kinds⟩ := namedArcs_place left
    obtain ⟨_,_,others⟩ := namedArcs_place right
    rcases kinds with rfl | rfl <;> rcases others with same | same
    · exact differ (Named.input.inj same).2
    · cases same
    · cases same
    · exact differ (Named.output.inj same).1
  have places : ((document.places.toList.map (·.name)).map Named.place).Nodup :=
    proper.placesDistinct.map fun _ _ => Named.place.inj
  have transitions : ((document.transitions.map (·.name)).map Named.transition).Nodup :=
    proper.transitionsDistinct.map fun _ _ => Named.transition.inj
  have isArc : ∀ one ∈ document.transitions.flatMap document.namedArcs, ∃ source target,
      one = .input source target ∨ one = .output source target := by
    intro one member
    obtain ⟨transition,_,found⟩ := List.mem_flatMap.mp member
    obtain ⟨_,_,kinds⟩ := namedArcs_place found
    rcases kinds with rfl | rfl
    · exact ⟨_,_,.inl rfl⟩
    · exact ⟨_,_,.inr rfl⟩
  -- Things of different kinds are different, which is left for the four lists of them.
  refine List.nodup_cons.mpr ⟨?_,List.nodup_append'.mpr ⟨List.nodup_append'.mpr ⟨places,transitions,?_⟩,arcs,?_⟩⟩
  · intro member
    rcases List.mem_append.mp member with nodes | arc
    · simp at nodes
    · obtain ⟨_,_,same | same⟩ := isArc _ arc <;> cases same
  · intro one place transition
    obtain ⟨_,_,rfl⟩ := List.mem_map.mp place
    simp at transition
  · intro one node arc
    obtain ⟨_,_,rfl | rfl⟩ := isArc _ arc <;> simp at node

theorem page_ids_distinct (proper : document.Proper) : document.page.ids.Nodup := by
  rw [page_ids]
  refine (named_distinct proper).map_on fun one member other inside same => ?_
  exact id_unique (named_spelled proper member) (named_spelled proper inside) same

theorem root_ids (document : Document) : document.root.ids = document.netId :: document.page.ids := by
  change [document.netId] ++ ([] ++ (document.page.ids ++ [])) ++ [] = _
  simp

end Document

theorem isName_dash {c : Char} {cs : List Char} (isName : IsName (c :: cs)) (dash : '-' ∈ cs) : c = '{' := by
  cases isName with
  | bare _ _ _ word _ =>
    have isChar := word _ dash
    rw [show isIdentChar '-' = false by decide] at isChar
    cases isChar
  | braced => rfl

namespace Document

theorem netId_arc (proper : document.Proper) {one : Named} {c : Char} {cs : List Char} (chars : one.id.toList = c :: cs)
    (unbraced : c ≠ '{') (dash : '-' ∈ cs) : document.netId ≠ one.id := by
  unfold netId
  split
  · intro same
    rw [← same] at chars
    obtain ⟨_,rest⟩ := List.cons.inj chars
    rw [← rest] at dash
    revert dash
    decide
  · next some =>
    intro same
    have isName := proper.name.resolve_left (by simpa using some)
    rw [same,chars] at isName
    exact unbraced (isName_dash isName dash)

theorem node_listed {node : Element} {id : String} (member : node ∈ document.nodes) (named : node.value? "id" = some id) :
    id ∈ document.page.ids := by
  change id ∈ "page" :: idsOfAll (document.nodes ++ document.arcs)
  rw [idsOfAll_flatMap]
  exact List.mem_cons_of_mem _ (List.mem_flatMap.mpr ⟨node,List.mem_append_left _ member,value_ids named⟩)

theorem place_node {place : Place} (member : place ∈ document.places) : place.element ∈ document.nodes :=
  List.mem_append_left _ (List.mem_map_of_mem (Array.mem_toList_iff.mpr member))

theorem transition_node (member : transition ∈ document.transitions) : transition.element ∈ document.nodes :=
  List.mem_append_right _ (List.mem_map_of_mem member)

theorem netId_used (proper : document.Proper) : document.netId ∈ document.page.ids ↔
    document.netId = "page" ∨ (∃ place ∈ document.places, document.netId = placeId place.name) ∨
      ∃ transition ∈ document.transitions, document.netId = transitionId transition.name := by
  rw [page_ids]
  constructor
  · intro member
    obtain ⟨one,listed,same⟩ := List.mem_map.mp member
    rcases named_cases listed with rfl | ⟨place,inside,rfl⟩ | ⟨transition,inside,rfl⟩ | ⟨_,_,found⟩
    · exact .inl same.symm
    · exact .inr (.inl ⟨place,inside,same.symm⟩)
    · exact .inr (.inr ⟨transition,inside,same.symm⟩)
    · obtain ⟨_,_,rfl | rfl⟩ := namedArcs_place found
      · exact absurd same.symm (netId_arc proper (input_chars _ _) (by decide) (by simp))
      · exact absurd same.symm (netId_arc proper (output_chars _ _) (by decide) (by simp))
  · rintro (same | ⟨place,member,same⟩ | ⟨transition,member,same⟩)
    · exact List.mem_map.mpr ⟨.page,List.mem_cons_self,same.symm⟩
    · rw [← page_ids,same]
      exact node_listed (place_node member) rfl
    · rw [← page_ids,same]
      exact node_listed (transition_node member) rfl

theorem arc_nodes (proper : document.Proper) {arc : Element} (member : arc ∈ document.arcs) {part : String}
    (isEnd : part ∈ ["source","target"]) :
    ∃ id, arc.value? part = some id ∧ ∃ node ∈ document.nodes, node.value? "id" = some id := by
  obtain ⟨transition,inside,here⟩ := List.mem_flatMap.mp member
  have atTransition : ∃ node ∈ document.nodes, node.value? "id" = some (transitionId transition.name) :=
    ⟨_,transition_node inside,rfl⟩
  have atPlace : ∀ pair ∈ transition.inputs ++ transition.outputs,
      ∃ node ∈ document.nodes, node.value? "id" = some (placeId (document.nameAt pair.1)) := by
    intro pair held
    obtain ⟨place,fetched,named⟩ := nameAt_found (proper.inside inside held)
    rw [named]
    exact ⟨_,place_node (Array.mem_of_getElem? ((fetch_ok _ _ _).mp fetched)),rfl⟩
  obtain ⟨pair,held,rfl | rfl⟩ := arcsOf_cases here <;> rcases List.mem_pair.mp isEnd with rfl | rfl
  · exact ⟨_,rfl,atPlace pair held⟩
  · exact ⟨_,rfl,atTransition⟩
  · exact ⟨_,rfl,atTransition⟩
  · exact ⟨_,rfl,atPlace pair held⟩

end Document

-- The net has its bare name for an identifier, which can be that of the page, of a place or
-- of a transition. No other identifier can be used twice.
theorem export_ids (strict : Bool) (text : String) (net : Net) (document : Document)
    (parsed : (Net.parse strict text).value = .ok net) (exported : (exportNet net).value = .ok document) :
    document.root.Plain ∧ document.write .unbounded = .ok (declaration ++ String.ofList (document.root.written 0)) ∧
    (∀ element : Element, element.Plain →
      document.write .unbounded = .ok (declaration ++ String.ofList (element.written 0)) → element = document.root) ∧
    document.root.ids = document.netId :: document.page.ids ∧
    document.page.ids.Nodup ∧
    (document.root.ids.Nodup ↔ document.netId ≠ "page" ∧
      (∀ place ∈ document.places, document.netId ≠ placeId place.name) ∧
      ∀ transition ∈ document.transitions, document.netId ≠ transitionId transition.name) ∧
    ∀ arc ∈ document.arcs, ∀ part ∈ ["source","target"], ∃ id, arc.value? part = some id ∧
      (∃ node ∈ document.nodes, node.value? "id" = some id) ∧ document.page.ids.count id = 1 ∧
      document.root.ids.count id = if document.netId = id then 2 else 1 := by
  have proper := export_proper parsed exported
  have distinct := page_ids_distinct proper
  refine ⟨root_plain proper,write_unbounded proper,fun element plain => write_unique proper plain,root_ids document,
    distinct,?_,?_⟩
  · rw [root_ids,List.nodup_cons,netId_used proper]
    simp only [distinct,and_true,not_or,not_exists,not_and]
  · intro arc member part isEnd
    obtain ⟨id,value,node,inside,named⟩ := arc_nodes proper member isEnd
    have once := List.count_eq_one_of_mem distinct (node_listed inside named)
    refine ⟨id,value,⟨node,inside,named⟩,once,?_⟩
    rw [root_ids,List.count_cons,once]
    by_cases same : document.netId = id <;> simp [same]

-- A net under the name that the identifier of its transition has.
def shared : Net := { selfLoop with name := "tr_t" }

def sharedDocument : Document := { selfLoopDocument 1 with name := "tr_t" }

set_option maxRecDepth 2000 in
theorem export_ids_shared :
    (Net.parse false "net tr_t\ntr t p -> p\n").value = .ok shared ∧ (exportNet shared).value = .ok sharedDocument ∧
      ¬ sharedDocument.root.ids.Nodup ∧ sharedDocument.root.ids.count (transitionId "t") = 2 := by
  have parsed : (Net.parse false "net tr_t\ntr t p -> p\n").value = .ok shared := by cbv
  have exported : (exportNet shared).value = .ok sharedDocument := by cbv
  have named : sharedDocument.netId = transitionId "t" := by decide
  have transition : ⟨"t","",[(0,1)],[(0,1)]⟩ ∈ sharedDocument.transitions := List.mem_singleton_self _
  have arc : sharedDocument.inputElement ⟨"t","",[(0,1)],[(0,1)]⟩ (0,1) ∈ sharedDocument.arcs :=
    List.mem_flatMap.mpr ⟨_,transition,List.mem_append_left _ (List.mem_singleton_self _)⟩
  obtain ⟨_,_,_,_,_,distinct,arcs⟩ := export_ids _ _ _ _ parsed exported
  refine ⟨parsed,exported,fun all => (distinct.mp all).2.2 _ transition named,?_⟩
  obtain ⟨id,value,_,_,count⟩ := arcs _ arc "target" (by simp)
  cases value
  rw [count,if_pos named]

end TimePetri.Pnml
