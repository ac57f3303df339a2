import TimePetri.Script.Number

namespace TimePetri.Script

-- A number as it is converted, in words from the first digit on. What does not fit at any
-- step is given up there.
def multipliers : List (Char × Int64) :=
  [('K',1000),('M',1000000),('G',1000000000),('T',1000000000000),('P',1000000000000000),
    ('E',1000000000000000000)]

def strip? (letter : Char) (cs : List Char) : Option (List Char) :=
  if cs.getLast? = some letter then some cs.dropLast else none

-- The first letter of the table that the number ends in, taken off.
def factored (cs : List Char) : List Char × Int64 :=
  (multipliers.findSome? fun entry => (strip? entry.1 cs).map (·,entry.2)).getD (cs,1)

def times? (a b : Int64) : Option Int64 := word? (a.toInt * b.toInt)

def plus? (a b : Int64) : Option Int64 := word? (a.toInt + b.toInt)

def digitWord (c : Char) : Int64 := Int64.ofNat (c.toNat - '0'.toNat)

def append? (w : Int64) (c : Char) : Option Int64 := do plus? (← times? w 10) (digitWord c)

def convert (text : String) : Except NumberError Int64 :=
  if text.isEmpty then .error .empty
  else
    let parts := factored text.toList
    if parts.1.isEmpty || !parts.1.all Char.isDigit then .error (.invalid text)
    else
      match do times? (← parts.1.foldlM append? 0) parts.2 with
      | some w => .ok w
      | none => .error (.overflow text)

end TimePetri.Script
