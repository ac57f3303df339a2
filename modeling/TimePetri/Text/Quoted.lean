import TimePetri.Text.Hidden

namespace TimePetri.Text

-- A quoted text stands between double quotes. Quotes and backslashes are marked,
-- the usual control characters have a short form, and every other hidden
-- character is written by its code point in lower-case hexadecimal.
def escapes : List (Char × Char) := [('"','"'),('\\','\\'),('\t','t'),('\r','r'),('\n','n'),('\x00','0')]

def hexadecimal (n : Nat) : List Char := Nat.toDigits 16 n

def quoteChar (c : Char) : List Char :=
  match escapes.lookup c with
  | some short => ['\\',short]
  | none => if isHidden c then ['\\','u','{'] ++ hexadecimal c.toNat ++ ['}'] else [c]

def quoted (text : String) : String :=
  String.ofList ('"' :: text.toList.flatMap quoteChar ++ ['"'])

end TimePetri.Text
