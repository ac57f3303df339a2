import TimePetri.Script.Number

namespace TimePetri.Script

structure Position where
  line : Nat
  column : Nat
  deriving DecidableEq

def Position.start : Position := ⟨1,1⟩

-- Only a line feed starts a line. Every other character is one column.
def Position.step (here : Position) (c : Char) : Position :=
  if c = '\n' then ⟨here.line + 1,1⟩ else ⟨here.line,here.column + 1⟩

def Position.after (here : Position) (cs : List Char) : Position := cs.foldl Position.step here

def Position.text (here : Position) : String := s!"line {here.line}, column {here.column}"

inductive Kind where
  | transition
  | place
  | net
  | priority
  | note
  | arrow
  | ident
  | interval
  | inhibitor
  | read
  | star
  | label
  | marking
  | gt
  | lt
  | int
  | illegal
  | eof
  deriving DecidableEq

-- The text of a token is what it stands for: a weight without its decoration, an
-- interval with blanks between its parts, a keyword in lower case. Names and
-- labels in braces keep their braces and escapes.
structure Token where
  kind : Kind
  text : String
  position : Position
  deriving DecidableEq

end TimePetri.Script
