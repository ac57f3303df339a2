import TimePetri.Text.Quoted
import TimePetri.Word

namespace TimePetri.Script

inductive NumberError where
  | empty
  | invalid (text : String)
  | overflow (text : String)
  deriving DecidableEq

def NumberError.message : NumberError → String
  | .empty => "empty value"
  | .invalid text => Text.quoted text ++ " is not a number"
  | .overflow text => Text.quoted text ++ " does not fit in 64 bits"

def multiplier? : Char → Option Nat
  | 'K' => some 1000
  | 'M' => some 1000000
  | 'G' => some 1000000000
  | 'T' => some 1000000000000
  | 'P' => some 1000000000000000
  | 'E' => some 1000000000000000000
  | _ => none

def isMultiplier (c : Char) : Bool := (multiplier? c).isSome

def digitsValue (digits : List Char) : Nat := digits.foldl (fun n c => 10 * n + (c.toNat - '0'.toNat)) 0

def naturalOf? (digits : List Char) : Option Nat :=
  if digits ≠ [] ∧ digits.all Char.isDigit then some (digitsValue digits) else none

def splitMultiplier (cs : List Char) : List Char × Nat :=
  match cs.getLast?.bind multiplier? with
  | some factor => (cs.dropLast,factor)
  | none => (cs,1)

def readNumber (text : String) : Except NumberError Int64 :=
  if text.isEmpty then .error .empty
  else
    let parts := splitMultiplier text.toList
    match naturalOf? parts.1 with
    | none => .error (.invalid text)
    | some n =>
      match word? (n * parts.2 : Nat) with
      | some w => .ok w
      | none => .error (.overflow text)

end TimePetri.Script
