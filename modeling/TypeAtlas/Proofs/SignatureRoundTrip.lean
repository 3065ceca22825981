import TypeAtlas.Proofs.SignatureCodec

/-!
Which signatures can be stored, and what is left of them. Main statement: a type, a method
signature and a property signature can be written exactly when each of their parts has a
stored form, and what was written is read back with its tokens as their codes hold them,
whatever follows it.
-/

namespace TypeAtlas.Metadata

variable {α β : Type} {bytes : Bytes} {value : Nat}

lemma exists_bind_eq_ok {first : Except Malformed α} {f : α → Except Malformed β} :
    (∃ y, first >>= f = .ok y) ↔ ∃ x, first = .ok x ∧ ∃ y, f x = .ok y := by
  constructor
  · rintro ⟨y, hy⟩
    obtain ⟨x, hx, hnext⟩ := bind_eq_ok hy
    exact ⟨x, hx, y, hnext⟩
  · rintro ⟨x, rfl, y, hy⟩
    exact ⟨y, hy⟩

lemma exists_pure_eq_ok {x : α} : (∃ y, (pure x : Except Malformed α) = .ok y) ↔ True :=
  ⟨fun _ => trivial, fun _ => ⟨x, rfl⟩⟩

lemma exists_writeCompressed : (∃ bytes, writeCompressed value = .ok bytes) ↔ value ≤ compressedLimit := by
  constructor
  · rintro ⟨bytes, hbytes⟩
    unfold compressedLimit
    rcases writeCompressed_eq_ok hbytes with ⟨hlt, -⟩ | ⟨⟨-, hlt⟩, -⟩ | ⟨⟨-, hle⟩, -⟩
    · omega
    · omega
    · exact hle
  · intro hle
    unfold writeCompressed
    split
    · exact ⟨_, rfl⟩
    · split
      · exact ⟨_, rfl⟩
      · exact ⟨_, rfl⟩

/-- The 32 bits of a token: its row above the two bits that tell its table. -/
def Token.bits (token : Token) : BitVec 32 :=
  (BitVec.ofNat 32 token.row <<< 2) ||| BitVec.ofNat 32 token.tag

lemma Token.toNat_bits (token : Token) : token.bits.toNat = token.code := by
  have htag : token.tag < 4 := by
    cases token <;> simp [Token.tag]
  have hor : ∀ row, (row <<< 2) ||| token.tag = row * 4 + token.tag := by
    intro row
    rw [← Nat.shiftLeft_add_eq_or_of_lt (i := 2) htag, Nat.shiftLeft_eq]
  have hrow : token.row % 0x100000000 * 4 % 0x100000000 = (token.row % 0x40000000) <<< 2 := by
    rw [Nat.shiftLeft_eq]
    omega
  have hbits : token.bits.toNat = token.row % 0x100000000 * 4 % 0x100000000 ||| token.tag % 0x100000000 := by
    rw [Token.bits, BitVec.toNat_or, BitVec.toNat_shiftLeft, BitVec.toNat_ofNat, BitVec.toNat_ofNat,
      Nat.shiftLeft_eq]
  rw [hbits, hrow, Nat.mod_eq_of_lt (by omega : token.tag < 0x100000000), hor, Token.code]
  omega

/-- What a signature is made of, apart from how it is put together. -/
inductive Part where
  | builtin (type : Builtin)
  /-- The number of a generic parameter, the rank of an array, or how many types follow. -/
  | number (value : Nat)
  | coded (token : Token)

/-- Parts with a stored form. The decimal type has none, and numbers and the bits of tokens
must have a compressed form. -/
def Part.Fits : Part → Prop
  | builtin type => type ≠ .decimal
  | number value => value ≤ 0x1fffffff
  | coded token => token.bits.toNat ≤ 0x1fffffff

/-- Rows of which the code of a token loses nothing. -/
def Part.IsWhole : Part → Prop
  | builtin _ | number _ => True
  | coded token => token.row < 0x40000000

lemma Part.fits_number : (Part.number value).Fits ↔ ∃ bytes, writeCompressed value = .ok bytes :=
  exists_writeCompressed.symm

lemma Part.fits_coded {token : Token} :
    (Part.coded token).Fits ↔ ∃ bytes, token.write = .ok bytes := by
  rw [Part.Fits, Token.toNat_bits]
  exact exists_writeCompressed.symm

namespace SigType

mutual

def parts : SigType → List Part
  | .builtin type => [.builtin type]
  | .classType token | .valueType token => [.coded token]
  | .inst generic _ args => .coded generic :: .number args.length :: partsEach args
  | .typeParam number | .methodParam number => [.number number]
  | .vector element | .byRef element | .pointer element => element.parts
  | .array element rank => element.parts ++ [.number rank]

def partsEach : List SigType → List Part
  | [] => []
  | type :: types => type.parts ++ partsEach types

end

lemma exists_write_builtin (type : Builtin) :
    (∃ bytes, (SigType.builtin type).write = .ok bytes) ↔ (Part.builtin type).Fits := by
  cases type <;> simp [write, Builtin.elementCode, Part.Fits]

mutual

/-- A type can be written exactly when its parts have a stored form. -/
lemma exists_write : (type : SigType) →
    ((∃ bytes, type.write = .ok bytes) ↔ ∀ part ∈ type.parts, part.Fits)
  | .builtin type => by
    simp only [parts, List.forall_mem_singleton]
    exact exists_write_builtin type
  | .classType token | .valueType token => by
    simp only [write, parts, List.forall_mem_singleton, exists_bind_eq_ok, exists_pure_eq_ok,
      and_true, Part.fits_coded]
  | .typeParam number | .methodParam number => by
    simp only [write, parts, List.forall_mem_singleton, exists_bind_eq_ok, exists_pure_eq_ok,
      and_true, Part.fits_number]
  | .vector element | .byRef element | .pointer element => by
    simp only [write, parts, exists_bind_eq_ok, exists_pure_eq_ok, and_true]
    exact exists_write element
  | .array element rank => by
    simp only [write, parts, List.forall_mem_append, List.forall_mem_singleton, exists_bind_eq_ok,
      exists_pure_eq_ok, and_true, exists_and_right, Part.fits_number, ← exists_write element]
  | .inst generic isValue args => by
    simp only [write, parts, List.forall_mem_cons, exists_bind_eq_ok, exists_pure_eq_ok, and_true,
      exists_and_right, Part.fits_number, Part.fits_coded, ← exists_writeAll args]

lemma exists_writeAll : (types : List SigType) →
    ((∃ bytes, writeAll types = .ok bytes) ↔ ∀ part ∈ partsEach types, part.Fits)
  | [] => by simp [writeAll, partsEach]
  | type :: types => by
    simp only [writeAll, partsEach, List.forall_mem_append, exists_bind_eq_ok, exists_pure_eq_ok,
      and_true, exists_and_right, ← exists_write type, ← exists_writeAll types]

end

mutual

lemma reduced_of_isWhole : (type : SigType) → (∀ part ∈ type.parts, part.IsWhole) →
    type.reduced = type
  | .builtin type, _ | .typeParam number, _ | .methodParam number, _ => rfl
  | .classType token, h | .valueType token, h => by
    have hrow : token.row < 0x40000000 := h (.coded token) (by simp [parts])
    rw [reduced, Token.reduced_eq_self hrow]
  | .vector element, h | .byRef element, h | .pointer element, h => by
    rw [reduced, reduced_of_isWhole element h]
  | .array element rank, h => by
    rw [reduced, reduced_of_isWhole element fun part hpart => h part (by simp [parts, hpart])]
  | .inst generic isValue args, h => by
    have hrow : generic.row < 0x40000000 := h (.coded generic) (by simp [parts])
    rw [reduced, Token.reduced_eq_self hrow,
      reducedEach_of_isWhole args fun part hpart => h part (by simp [parts, hpart])]

lemma reducedEach_of_isWhole : (types : List SigType) → (∀ part ∈ partsEach types, part.IsWhole) →
    reducedEach types = types
  | [], _ => rfl
  | type :: types, h => by
    rw [reducedEach, reduced_of_isWhole type fun part hpart => h part (by simp [partsEach, hpart]),
      reducedEach_of_isWhole types fun part hpart => h part (by simp [partsEach, hpart])]

end

end SigType

namespace MethodSig

def parts (sig : MethodSig) : List Part :=
  .number sig.generics :: .number sig.params.length :: (sig.ret.parts ++ SigType.partsEach sig.params)

lemma exists_write (sig : MethodSig) :
    (∃ bytes, sig.write = .ok bytes) ↔ ∀ part ∈ sig.parts, part.Fits := by
  have hgenerics : (∃ bytes, (if sig.generics > 0 then writeCompressed sig.generics else .ok []) = .ok bytes) ↔
      (Part.number sig.generics).Fits := by
    by_cases hpos : sig.generics > 0
    · rw [if_pos hpos, Part.fits_number]
    · have hzero : sig.generics = 0 := by omega
      simp [hzero, Part.Fits]
  simp only [write_eq, parts, List.forall_mem_cons, List.forall_mem_append, exists_bind_eq_ok,
    Except.ok.injEq, exists_eq', and_true, exists_and_right, ← hgenerics, Part.fits_number,
    ← SigType.exists_write, ← SigType.exists_writeAll]

lemma reduced_of_isWhole {sig : MethodSig} (h : ∀ part ∈ sig.parts, part.IsWhole) :
    sig.reduced = sig := by
  rw [reduced, SigType.reduced_of_isWhole sig.ret fun part hpart => h part (by simp [parts, hpart]),
    SigType.reducedEach_of_isWhole sig.params fun part hpart => h part (by simp [parts, hpart])]

end MethodSig

namespace PropertySig

variable {sig : PropertySig}

def parts (sig : PropertySig) : List Part :=
  .number sig.params.length :: (sig.type.parts ++ SigType.partsEach sig.params)

lemma exists_write (sig : PropertySig) :
    (∃ bytes, sig.write = .ok bytes) ↔ ∀ part ∈ sig.parts, part.Fits := by
  simp only [write, parts, List.forall_mem_cons, List.forall_mem_append, exists_bind_eq_ok,
    exists_pure_eq_ok, and_true, exists_and_right, Part.fits_number, ← SigType.exists_write,
    ← SigType.exists_writeAll]

lemma reduced_of_isWhole (h : ∀ part ∈ sig.parts, part.IsWhole) : sig.reduced = sig := by
  rw [reduced, SigType.reduced_of_isWhole sig.type fun part hpart => h part (by simp [parts, hpart]),
    SigType.reducedEach_of_isWhole sig.params fun part hpart => h part (by simp [parts, hpart])]

end PropertySig

/-- Signatures can be written exactly when their parts have a stored form. What was written
is read back whatever follows it, with every row modulo `2^30`; the reader of a type leaves
what follows, those of methods and properties ignore it. -/
theorem written_signatures_read_back :
    (∀ type : SigType,
      ((∃ bytes, type.write = .ok bytes) ↔ ∀ part ∈ type.parts, part.Fits) ∧
      (∀ bytes rest, type.write = .ok bytes →
        SigType.read.run (bytes ++ rest) = .ok (type.reduced, rest)) ∧
      ((∀ part ∈ type.parts, part.IsWhole) → type.reduced = type)) ∧
    (∀ sig : MethodSig,
      ((∃ bytes, sig.write = .ok bytes) ↔ ∀ part ∈ sig.parts, part.Fits) ∧
      (∀ bytes rest, sig.write = .ok bytes → MethodSig.ofBlob (bytes ++ rest) = .ok sig.reduced) ∧
      ((∀ part ∈ sig.parts, part.IsWhole) → sig.reduced = sig)) ∧
    ∀ sig : PropertySig,
      ((∃ bytes, sig.write = .ok bytes) ↔ ∀ part ∈ sig.parts, part.Fits) ∧
      (∀ bytes rest, sig.write = .ok bytes → PropertySig.ofBlob (bytes ++ rest) = .ok sig.reduced) ∧
      ((∀ part ∈ sig.parts, part.IsWhole) → sig.reduced = sig) := by
  refine ⟨fun type => ⟨type.exists_write, fun bytes rest h => ?_, type.reduced_of_isWhole⟩,
    fun sig => ⟨sig.exists_write, fun bytes rest h => ?_, sig.reduced_of_isWhole⟩,
    fun sig => ⟨sig.exists_write, fun bytes rest h => ?_, sig.reduced_of_isWhole⟩⟩
  · exact SigType.takes_read h rest
  · exact (MethodSig.takes_read h).ofBlob rest
  · exact (PropertySig.takes_read h).ofBlob rest

/-- A row that does not fit into a token loses its highest bits. -/
example : (SigType.classType (.definition 0x40000001)).write = .ok [0x12, 0x04] ∧
    SigType.read.run [0x12, 0x04, 0xff] = .ok (.classType (.definition 1), [0xff]) :=
  ⟨rfl, rfl⟩

end TypeAtlas.Metadata
