import TimePetri.Pnml.Document

namespace TimePetri.Pnml

def Element.written (depth : Nat) (element : Element) : List Char := (Document.continued (element.lines depth)).toList

def allWritten (depth : Nat) (elements : List Element) : List Char :=
  (Document.continued (linesOfAll depth elements)).toList

def Element.tag : Element → String
  | .text tag _ => tag
  | .node tag _ _ => tag

def Element.value? (name : String) : Element → Option String
  | .text _ _ => none
  | .node _ attributes _ => (attributes.find? (·.name = name)).map (·.value)

mutual

def Element.ids : Element → List String
  | .text _ _ => []
  | .node _ attributes children => (attributes.filter (·.name = "id")).map (·.value) ++ idsOfAll children

def idsOfAll : List Element → List String
  | [] => []
  | element :: rest => element.ids ++ idsOfAll rest

end

namespace Document

def nameAt (document : Document) (place : Nat) : String := (document.places[place]?.map (·.name)).getD ""

def inputElement (document : Document) (transition : Transition) (arc : Nat × Int64) : Element :=
  arcElement ("p2t-" ++ document.nameAt arc.1 ++ "-" ++ transition.name) (placeId (document.nameAt arc.1))
    (transitionId transition.name) arc.2

def outputElement (document : Document) (transition : Transition) (arc : Nat × Int64) : Element :=
  arcElement ("t2p-" ++ transition.name ++ "-" ++ document.nameAt arc.1) (transitionId transition.name)
    (placeId (document.nameAt arc.1)) arc.2

def arcsOf (document : Document) (transition : Transition) : List Element :=
  transition.inputs.map (document.inputElement transition) ++ transition.outputs.map (document.outputElement transition)

def nodes (document : Document) : List Element :=
  document.places.toList.map Place.element ++ document.transitions.map Transition.element

def arcs (document : Document) : List Element := document.transitions.flatMap document.arcsOf

def page (document : Document) : Element := .node "page" [⟨"id","page"⟩] (document.nodes ++ document.arcs)

def root (document : Document) : Element :=
  .node "pnml" [⟨"xmlns",pnmlNamespace⟩]
    [.node "net" [⟨"id",document.netId⟩,⟨"type",ptnetType⟩] [labelled "name" document.netId,document.page]]

end Document

end TimePetri.Pnml
