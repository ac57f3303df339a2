import Mathlib.Data.List.Forall2
import TimePetri.Proofs.Marking.Encoding

namespace TimePetri

variable {a : Atom} {atoms : List Atom} {parts : List (List UInt8)} {bytes : List UInt8} {m other : Marking}
  {flaw : EncodingError}

-- An atom that its eight bytes can hold, and why another one has no encoding. The place is
-- looked at first, and then the sign.
structure Atom.Encodable (a : Atom) : Prop where
  place : a.place < placeLimit
  positive : 0 < a.mult.toInt
  mult : a.mult.toInt < multLimit

inductive Atom.Refused (a : Atom) : EncodingError → Prop where
  | place (large : placeLimit ≤ a.place) : Refused a (.placeOverflow a.place)
  | negative (fits : a.place < placeLimit) (below : a.mult.toInt < 0) : Refused a (.negative a.place a.mult)
  | mult (fits : a.place < placeLimit) (large : multLimit ≤ a.mult.toInt) : Refused a (.multOverflow a.place a.mult)

def FirstRefused (atoms : List Atom) (flaw : EncodingError) : Prop :=
  ∃ front a back, atoms = front ++ a :: back ∧ (∀ b ∈ front, b.Encodable) ∧ a.Refused flaw

theorem mapM_each {step : α → Except ε β} {xs : List α} {ys : List β} :
    xs.mapM step = .ok ys ↔ List.Forall₂ (fun x y => step x = .ok y) xs ys := by
  induction xs generalizing ys with
  | nil => simp [List.forall₂_nil_left_iff,eq_comm]
  | cons x rest ih =>
    rw [List.mapM_cons,bind_ok,List.forall₂_cons_left_iff]
    refine exists_congr fun y => ?_
    rw [bind_ok]
    constructor
    · rintro ⟨here,others,later,same⟩
      cases same
      exact ⟨others,here,ih.mp later,rfl⟩
    · rintro ⟨others,here,later,rfl⟩
      exact ⟨here,others,ih.mpr later,rfl⟩

theorem mapM_refused {step : α → Except ε β} {xs : List α} {reason : ε} :
    xs.mapM step = .error reason ↔
      ∃ front x back, xs = front ++ x :: back ∧ (∀ z ∈ front, ∃ y, step z = .ok y) ∧ step x = .error reason := by
  induction xs with
  | nil => exact iff_of_false nofun (by simp)
  | cons x rest ih =>
    rw [List.mapM_cons]
    cases here : step x with
    | error other =>
      constructor
      · intro failed
        cases failed
        exact ⟨[],x,rest,rfl,nofun,here⟩
      · rintro ⟨_ | ⟨z,front⟩,y,back,split,before,failed⟩
        · cases split
          cases here.symm.trans failed
          rfl
        · cases split
          obtain ⟨y,succeeds⟩ := before x (by simp)
          cases here.symm.trans succeeds
    | ok y =>
      have further : (do let ys ← rest.mapM step; pure (y :: ys)) = Except.error reason ↔ rest.mapM step = .error reason := by
        cases rest.mapM step <;> simp
      rw [ok_bind,further,ih]
      constructor
      · rintro ⟨front,z,back,rfl,before,failed⟩
        refine ⟨x :: front,z,back,rfl,fun w member => ?_,failed⟩
        rcases List.mem_cons.mp member with rfl | later
        · exact ⟨y,here⟩
        · exact before w later
      · rintro ⟨_ | ⟨w,front⟩,z,back,split,before,failed⟩
        · cases split
          cases here.symm.trans failed
        · cases split
          exact ⟨front,z,back,rfl,fun w member => before w (List.mem_cons_of_mem _ member),failed⟩

theorem encode_refused (a : Atom) (flaw : EncodingError) : a.encode = .error flaw ↔ a.Refused flaw := by
  have sign : a.mult < 0 ↔ a.mult.toInt < 0 := Int64.lt_iff_toInt_lt
  unfold Atom.encode
  constructor
  · intro failed
    split at failed
    · next large => cases failed; exact .place large
    · next fits =>
      split at failed
      · next below => cases failed; exact .negative (by omega) (sign.mp below)
      · split at failed
        · next large => cases failed; exact .mult (by omega) large
        · cases failed
  · intro refused
    cases refused with
    | place large => rw [if_pos large]
    | negative fits below => rw [if_neg (by omega),if_pos (sign.mpr below)]
    | mult fits large =>
      have nonneg : ¬ a.mult < 0 := fun below => by
        have := sign.mp below
        unfold multLimit at large
        omega
      rw [if_neg (by omega),if_neg nonneg,if_pos large]

-- An atom of a marking counts something, so that a sign is all it can miss.
theorem encodable_exact (present : a.mult ≠ 0) : a.Encodable ↔ ∃ part, a.encode = .ok part := by
  have counts : a.mult.toInt ≠ 0 := fun zero => present (Int64.toInt_inj.mp zero)
  simp only [encode_exact]
  constructor
  · rintro ⟨place,positive,mult⟩
    exact ⟨_,⟨place,Int.le_of_lt positive,mult⟩,rfl⟩
  · rintro ⟨_,⟨place,nonneg,mult⟩,_⟩
    exact ⟨place,by omega,mult⟩

theorem encode_length (encoded : a.encode = .ok bytes) : bytes.length = 8 := by
  obtain ⟨_,rfl⟩ := (encode_exact a bytes).mp encoded
  rfl

theorem quad_written (p q r s : UInt8) : quadBytes (quadValue p q r s) = [p,q,r,s] ∧ quadValue p q r s < placeLimit := by
  have := p.toNat_lt
  have := q.toNat_lt
  have := r.toNat_lt
  have := s.toNat_lt
  have byte (n : Nat) (b : UInt8) (same : n % 256 = b.toNat) : n.toUInt8 = b := by
    rw [← UInt8.toNat_inj,Nat.toUInt8,UInt8.toNat_ofNat',← same]
  unfold quadBytes quadValue placeLimit
  refine ⟨?_,by omega⟩
  rw [byte _ p (by omega),byte _ q (by omega),byte _ r (by omega),byte _ s (by omega)]

theorem encode_read (p q r s w x y z : UInt8) (small : (Int64.ofNat (quadValue w x y z)).toInt < multLimit) :
    Atom.encode ⟨quadValue p q r s,Int64.ofNat (quadValue w x y z)⟩ = .ok [p,q,r,s,w,x,y,z] := by
  obtain ⟨place,placeFits⟩ := quad_written p q r s
  obtain ⟨mult,multFits⟩ := quad_written w x y z
  have value : (Int64.ofNat (quadValue w x y z)).toInt = quadValue w x y z := by
    unfold placeLimit at multFits
    exact Int64.toInt_ofNat_of_lt (by omega)
  refine (encode_exact _ _).mpr ⟨⟨placeFits,?_,small⟩,?_⟩
  · rw [value]
    exact Int.natCast_nonneg _
  · dsimp only
    rw [value,Int.toNat_natCast,place,mult]
    rfl

theorem eight_bytes (bytes : List UInt8) (long : 8 ≤ bytes.length) :
    ∃ p q r s w x y z rest, bytes = p :: q :: r :: s :: w :: x :: y :: z :: rest := by
  match bytes with
  | p :: q :: r :: s :: w :: x :: y :: z :: rest => exact ⟨p,q,r,s,w,x,y,z,rest,rfl⟩

theorem encode_readAll (whole : 8 ∣ bytes.length) (small : ∀ a ∈ decodeAtoms bytes, a.mult.toInt < multLimit) :
    ∃ parts, (decodeAtoms bytes).mapM Atom.encode = .ok parts ∧ parts.flatten = bytes := by
  fun_induction decodeAtoms bytes with
  | case1 p q r s w x y z rest ih =>
    obtain ⟨first,others⟩ := List.forall_mem_cons.mp small
    have here := encode_read p q r s w x y z first
    have shorter : 8 ∣ rest.length := by
      simp only [List.length_cons] at whole
      omega
    obtain ⟨parts,later,same⟩ := ih shorter others
    refine ⟨[p,q,r,s,w,x,y,z] :: parts,?_,?_⟩
    · rw [List.mapM_cons,here,ok_bind,later]
      rfl
    · rw [List.flatten_cons,same]
      rfl
  | case2 bytes short =>
    have none : bytes = [] := by
      apply Classical.byContradiction
      intro some
      have present := List.length_pos_iff.mpr some
      obtain ⟨p,q,r,s,w,x,y,z,rest,same⟩ := eight_bytes bytes (by omega)
      exact short p q r s w x y z rest same
    exact ⟨[],rfl,none.symm⟩

namespace Marking

theorem encode_each : m.encode = .ok bytes ↔
    ∃ parts, List.Forall₂ (fun a part => a.encode = .ok part) m.atoms parts ∧ parts.flatten = bytes := by
  unfold encode
  simp only [bind_ok,mapM_each,pure_ok,Except.ok.injEq]

theorem encode_flaw : m.encode = .error flaw ↔ m.atoms.mapM Atom.encode = .error flaw := by
  unfold encode
  cases m.atoms.mapM Atom.encode <;> simp

theorem encode_size (encoded : m.encode = .ok bytes) : bytes.length = 8 * m.size := by
  obtain ⟨parts,each,rfl⟩ := encode_each.mp encoded
  unfold size
  clear encoded
  generalize m.atoms = atoms at each
  induction each with
  | nil => rfl
  | cons here _ ih =>
    rw [List.flatten_cons,List.length_append,encode_length here,ih,List.length_cons]
    omega

theorem atoms_encodable (m : Marking) (a : Atom) (member : a ∈ m.atoms) : a.Encodable ↔ ∃ part, a.encode = .ok part :=
  encodable_exact (m.canonical.2 a member)

theorem encode_first (m : Marking) (flaw : EncodingError) : m.encode = .error flaw ↔ FirstRefused m.atoms flaw := by
  rw [encode_flaw,mapM_refused]
  refine exists_congr fun front => exists_congr fun a => exists_congr fun back => and_congr_right fun split => ?_
  rw [encode_refused]
  refine and_congr_left fun _ => forall₂_congr fun b member => (m.atoms_encodable b ?_).symm
  rw [split]
  exact List.mem_append_left _ member

theorem encode_succeeds (m : Marking) : (∃ bytes, m.encode = .ok bytes) ↔ ∀ a ∈ m.atoms, a.Encodable := by
  constructor
  · rintro ⟨bytes,encoded⟩ a member
    obtain ⟨parts,each,_⟩ := encode_each.mp encoded
    obtain ⟨i,inside,rfl⟩ := List.mem_iff_getElem.mp member
    exact (m.atoms_encodable _ member).mpr ⟨_,each.get inside (each.length_eq ▸ inside)⟩
  · intro all
    cases encoded : m.encode with
    | ok bytes => exact ⟨bytes,rfl⟩
    | error flaw =>
      obtain ⟨front,a,back,split,_,refused⟩ := (m.encode_first flaw).mp encoded
      have member : a ∈ m.atoms := by rw [split]; simp
      obtain ⟨part,succeeds⟩ := (m.atoms_encodable a member).mp (all a member)
      cases succeeds.symm.trans ((encode_refused a flaw).mpr refused)

theorem encode_decoded (whole : 8 ∣ bytes.length) (decoded : decode bytes = .ok m)
    (small : ∀ a ∈ m.atoms, a.mult.toInt < multLimit) : m.encode = .ok bytes := by
  have atoms := (ofAtoms_exact _ _).mp decoded
  rw [atoms] at small
  obtain ⟨parts,each,same⟩ := encode_readAll whole small
  unfold encode
  rw [atoms,each,ok_bind,same]
  rfl

theorem encode_image (bytes : List UInt8) : (∃ m : Marking, m.encode = .ok bytes) ↔
    8 ∣ bytes.length ∧ ∃ m, decode bytes = .ok m ∧ ∀ a ∈ m.atoms, a.mult.toInt < multLimit := by
  constructor
  · rintro ⟨m,encoded⟩
    have encodable := m.encode_succeeds.mp ⟨bytes,encoded⟩
    exact ⟨⟨m.size,encode_size encoded⟩,m,decode_encoded encoded,fun a member => (encodable a member).mult⟩
  · rintro ⟨whole,m,decoded,small⟩
    exact ⟨m,encode_decoded whole decoded small⟩

theorem encode_domain (m : Marking) :
    ((∃ bytes, m.encode = .ok bytes) ↔ ∀ a ∈ m.atoms, a.Encodable) ∧
    (∀ flaw, m.encode = .error flaw ↔ FirstRefused m.atoms flaw) ∧
    (∀ bytes, m.encode = .ok bytes → bytes.length = 8 * m.size ∧ decode bytes = .ok m ∧
      ∀ other : Marking, other.encode = .ok bytes → other = m) ∧
    ∀ bytes, ((∃ source : Marking, source.encode = .ok bytes) ↔
        8 ∣ bytes.length ∧ ∃ read, decode bytes = .ok read ∧ ∀ a ∈ read.atoms, a.mult.toInt < multLimit) ∧
      ∀ source : Marking, source.encode = .ok bytes → ∃ read, decode bytes = .ok read ∧ read.encode = .ok bytes := by
  refine ⟨m.encode_succeeds,m.encode_first,fun bytes encoded => ?_,fun bytes => ⟨encode_image bytes,fun source encoded => ?_⟩⟩
  · exact ⟨encode_size encoded,decode_encoded encoded,fun other same => encode_unique same encoded⟩
  · exact ⟨source,decode_encoded encoded,encoded⟩

-- The largest atom that fits, a place that does not in front of a negative count, and bytes
-- that say a count with the bit of the sign.
theorem encode_domain_largest :
    (∃ bytes, Marking.encode ⟨[⟨0,1⟩,⟨4294967295,2147483647⟩],by unfold Canonical; decide⟩ = .ok bytes ∧ bytes.length = 16) ∧
      Marking.encode ⟨[⟨0,1⟩,⟨4294967296,-1⟩,⟨4294967297,1⟩],by unfold Canonical; decide⟩ = .error (.placeOverflow 4294967296) ∧
      ¬ ∃ m : Marking, m.encode = .ok [0,0,0,0,128,0,0,0] := by
  refine ⟨?_,?_,?_⟩
  · obtain ⟨succeeds,_,whole,_⟩ := encode_domain ⟨[⟨0,1⟩,⟨4294967295,2147483647⟩],by unfold Canonical; decide⟩
    obtain ⟨bytes,encoded⟩ := succeeds.mpr (by
      intro a member
      rcases List.mem_pair.mp member with rfl | rfl <;> exact ⟨by decide,by decide,by decide⟩)
    exact ⟨bytes,encoded,(whole bytes encoded).1⟩
  · refine ((encode_domain _).2.1 _).mpr ⟨[⟨0,1⟩],⟨4294967296,-1⟩,[⟨4294967297,1⟩],rfl,?_,.place (by decide)⟩
    intro b member
    cases List.mem_singleton.mp member
    exact ⟨by decide,by decide,by decide⟩
  · rw [((encode_domain .empty).2.2.2 _).1]
    rintro ⟨_,m,decoded,small⟩
    have atoms := (ofAtoms_exact _ _).mp decoded
    have high := small ⟨0,2147483648⟩ (by rw [atoms]; decide)
    exact absurd high (by decide)

end Marking

end TimePetri
