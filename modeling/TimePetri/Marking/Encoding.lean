import TimePetri.Marking.Basic

namespace TimePetri

inductive EncodingError where
  | placeOverflow (place : Nat)
  | negative (place : Nat) (mult : Int64)
  | multOverflow (place : Nat) (mult : Int64)
  deriving DecidableEq

def EncodingError.message : EncodingError → String
  | .placeOverflow place => s!"place index {place} does not fit in 32 bits"
  | .negative place mult => "negative multiplicity " ++ decimal mult ++ s!" for place {place}"
  | .multOverflow place mult =>
    "multiplicity " ++ decimal mult ++ s!" for place {place} does not fit in 31 bits"

-- Four bytes, most significant first, as byteorder is taken to write and to read them.
def quadBytes (n : Nat) : List UInt8 :=
  [(n / 16777216).toUInt8,(n / 65536).toUInt8,(n / 256).toUInt8,n.toUInt8]

def quadValue (a b c d : UInt8) : Nat :=
  ((a.toNat * 256 + b.toNat) * 256 + c.toNat) * 256 + d.toNat

-- A place has 32 bits and a multiplicity 31, the last one being its sign.
def placeLimit : Nat := 4294967296

def multLimit : Int := 2147483648

-- Of several flaws in one atom the place is reported first, then the sign.
def Atom.encode (a : Atom) : Except EncodingError (List UInt8) :=
  if placeLimit ≤ a.place then .error (.placeOverflow a.place)
  else if a.mult < 0 then .error (.negative a.place a.mult)
  else if multLimit ≤ a.mult.toInt then .error (.multOverflow a.place a.mult)
  else .ok (quadBytes a.place ++ quadBytes a.mult.toInt.toNat)

def decodeAtoms : List UInt8 → List Atom
  | p :: q :: r :: s :: w :: x :: y :: z :: rest =>
    ⟨quadValue p q r s,Int64.ofNat (quadValue w x y z)⟩ :: decodeAtoms rest
  | _ => []

namespace Marking

def encode (m : Marking) : Except EncodingError (List UInt8) := do
  return (← m.atoms.mapM Atom.encode).flatten

def decode (bytes : List UInt8) : Except MarkingError Marking := ofAtoms (decodeAtoms bytes)

end Marking

end TimePetri
