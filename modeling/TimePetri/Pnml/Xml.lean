namespace TimePetri.Pnml

structure Attribute where
  name : String
  value : String
  deriving DecidableEq

-- An element holds a line of text, or other elements on lines of their own.
inductive Element where
  | text (tag : String) (content : String)
  | node (tag : String) (attributes : List Attribute) (children : List Element)

-- Texts and values are escaped as quick-xml is taken to do it, these five characters
-- and no others.
def escapeChar (c : Char) : String :=
  match c with
  | '<' => "&lt;"
  | '>' => "&gt;"
  | '&' => "&amp;"
  | '\'' => "&apos;"
  | '"' => "&quot;"
  | c => String.singleton c

def escape (text : String) : String := String.join (text.toList.map escapeChar)

def Attribute.written (pair : Attribute) : String :=
  " " ++ pair.name ++ "=\"" ++ escape pair.value ++ "\""

def openTag (tag : String) (attributes : List Attribute) : String :=
  "<" ++ tag ++ String.join (attributes.map Attribute.written) ++ ">"

def closeTag (tag : String) : String := "</" ++ tag ++ ">"

def indented (depth : Nat) (line : String) : String := String.ofList (List.replicate (2 * depth) ' ') ++ line

-- Of its writer it is taken for granted that it starts each tag on a line of its own,
-- two blanks deeper than the tag around it, but for the tags around a text, and that
-- attributes stay in the order in which they are given.
mutual

def Element.lines (depth : Nat) : Element → List String
  | .text tag content => [indented depth (openTag tag [] ++ escape content ++ closeTag tag)]
  | .node tag attributes children =>
    indented depth (openTag tag attributes) :: linesOfAll (depth + 1) children ++
      [indented depth (closeTag tag)]

def linesOfAll (depth : Nat) : List Element → List String
  | [] => []
  | element :: rest => element.lines depth ++ linesOfAll depth rest

end

def declaration : String := "<?xml version=\"1.0\" encoding=\"UTF-8\"?>"

def labelled (tag content : String) : Element := .node tag [] [.text "text" content]

end TimePetri.Pnml
