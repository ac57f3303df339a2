import TimePetri.Proofs.Marking.Conversion

namespace TimePetri

variable {a : Atom} {atoms : List Atom} {parts : List (List UInt8)} {bytes : List UInt8} {m other : Marking}

theorem quad_read (n : Nat) (fits : n < placeLimit) (rest : List UInt8) :
    ∃ p q r s, quadBytes n ++ rest = p :: q :: r :: s :: rest ∧ quadValue p q r s = n := by
  refine ⟨_,_,_,_,rfl,?_⟩
  unfold placeLimit at fits
  unfold quadValue
  simp only [Nat.toUInt8,UInt8.toNat_ofNat']
  omega

theorem encode_exact (a : Atom) (part : List UInt8) : a.encode = .ok part ↔
    (a.place < placeLimit ∧ 0 ≤ a.mult.toInt ∧ a.mult.toInt < multLimit) ∧
      part = quadBytes a.place ++ quadBytes a.mult.toInt.toNat := by
  have sign : a.mult < 0 ↔ a.mult.toInt < 0 := Int64.lt_iff_toInt_lt
  unfold Atom.encode
  simp only [sign]
  split
  · simp; omega
  · split
    · simp; omega
    · split
      · simp; omega
      · simp only [Except.ok.injEq]
        constructor
        · rintro rfl
          exact ⟨by omega,rfl⟩
        · exact fun parts => parts.2.symm

theorem decodeAtom_encoded (encoded : a.encode = .ok bytes) (rest : List UInt8) :
    decodeAtoms (bytes ++ rest) = a :: decodeAtoms rest := by
  obtain ⟨⟨place,nonneg,mult⟩,rfl⟩ := (encode_exact a bytes).mp encoded
  have small : a.mult.toInt.toNat < placeLimit := by unfold multLimit at mult; unfold placeLimit; omega
  obtain ⟨p,q,r,s,first,placeValue⟩ := quad_read a.place place (quadBytes a.mult.toInt.toNat ++ rest)
  obtain ⟨w,x,y,z,second,multValue⟩ := quad_read a.mult.toInt.toNat small rest
  rw [List.append_assoc,first,second,decodeAtoms,placeValue,multValue]
  have word : Int64.ofNat a.mult.toInt.toNat = a.mult := by
    rw [← Int64.ofInt_eq_ofNat,Int.toNat_of_nonneg nonneg,Int64.ofInt_toInt]
  rw [word]

theorem decodeAtoms_encoded (encoded : atoms.mapM Atom.encode = .ok parts) : decodeAtoms parts.flatten = atoms := by
  induction atoms generalizing parts with
  | nil => cases encoded; rfl
  | cons a rest ih =>
    rw [List.mapM_cons] at encoded
    obtain ⟨part,here,encoded⟩ := bind_ok.mp encoded
    obtain ⟨others,later,encoded⟩ := bind_ok.mp encoded
    cases encoded
    rw [List.flatten_cons,decodeAtom_encoded here,ih later]

namespace Marking

theorem encode_parts (encoded : m.encode = .ok bytes) :
    ∃ parts, m.atoms.mapM Atom.encode = .ok parts ∧ bytes = parts.flatten := by
  obtain ⟨parts,each,same⟩ := bind_ok.mp encoded
  cases same
  exact ⟨parts,each,rfl⟩

theorem decode_encoded (encoded : m.encode = .ok bytes) : decode bytes = .ok m := by
  obtain ⟨parts,each,rfl⟩ := encode_parts encoded
  exact (ofAtoms_exact _ _).mpr (decodeAtoms_encoded each).symm

theorem encode_unique (first : m.encode = .ok bytes) (second : other.encode = .ok bytes) : m = other := by
  have same := decode_encoded first
  rw [decode_encoded second] at same
  exact (Except.ok.inj same).symm

theorem decodeTable_exact (encoded : m.table.encode = .ok bytes) : AtomTable.decode bytes = m.table := by
  have whole : m.encode = .ok bytes := encoded
  obtain ⟨parts,each,rfl⟩ := encode_parts whole
  rw [AtomTable.decode,decodeAtoms_encoded each]
  rfl

end Marking

end TimePetri
