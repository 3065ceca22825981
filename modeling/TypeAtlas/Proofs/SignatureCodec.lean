import TypeAtlas.Metadata.Signature
import TypeAtlas.Proofs.Compressed

/-!
Signatures that are written and read again. Main statement: a type, a method signature and
a property signature are read back as they were written, whatever follows them, except that
a token keeps no more of its row than the code of a token holds.
-/

namespace TypeAtlas.Metadata

lemma Takes.ofExcept {α : Type} {result : Except Malformed α} {x : α} (h : result = .ok x) :
    Takes (MonadExcept.ofExcept result) [] x := by
  subst h
  exact fun _ => rfl

namespace Token

/-- The token that is left of one in its code. -/
def reduced : Token → Token
  | definition row => definition (row % 0x40000000)
  | reference row => reference (row % 0x40000000)
  | specification row => specification (row % 0x40000000)

/-- A row below `2^30` is kept. -/
lemma reduced_eq_self {token : Token} (h : token.row < 0x40000000) : token.reduced = token := by
  cases token <;> rw [row] at h <;> rw [reduced, Nat.mod_eq_of_lt h]

lemma ofCode_code (token : Token) : ofCode token.code = .ok token.reduced := by
  have hrow : ∀ row tag, tag < 4 → (row * 4 % 0x100000000 + tag) % 4 = tag ∧
      (row * 4 % 0x100000000 + tag) / 4 = row % 0x40000000 := by
    intro row tag htag
    omega
  cases token with
  | definition row =>
    obtain ⟨htag, hrow⟩ := hrow row 0 (by omega)
    simp only [ofCode, code, Token.row, tag, htag, hrow, reduced]
  | reference row =>
    obtain ⟨htag, hrow⟩ := hrow row 1 (by omega)
    simp only [ofCode, code, Token.row, tag, htag, hrow, reduced]
  | specification row =>
    obtain ⟨htag, hrow⟩ := hrow row 2 (by omega)
    simp only [ofCode, code, Token.row, tag, htag, hrow, reduced]

lemma takes_read {token : Token} {bytes : Bytes} (h : token.write = .ok bytes) :
    Takes Token.read bytes token.reduced := by
  have hread := (Takes.compressed h).bind (f := fun coded => MonadExcept.ofExcept (ofCode coded))
    (Takes.ofExcept token.ofCode_code)
  rwa [List.append_nil] at hread

end Token

namespace SigType

mutual

/-- The type with its tokens as their codes hold them. -/
def reduced : SigType → SigType
  | .builtin type => .builtin type
  | .classType token => .classType token.reduced
  | .valueType token => .valueType token.reduced
  | .inst generic isValue args => .inst generic.reduced isValue (reducedEach args)
  | .typeParam number => .typeParam number
  | .methodParam number => .methodParam number
  | .vector element => .vector element.reduced
  | .array element rank => .array element.reduced rank
  | .byRef target => .byRef target.reduced
  | .pointer target => .pointer target.reduced

def reducedEach : List SigType → List SigType
  | [] => []
  | type :: types => type.reduced :: reducedEach types

end

lemma exists_fuel {code : UInt8} {bytes : Bytes} {fuel : Nat} (h : (code :: bytes).length ≤ fuel) :
    ∃ rest, fuel = rest + 1 ∧ bytes.length ≤ rest :=
  ⟨fuel - 1, by simp at h; omega, by simp at h; omega⟩

lemma takes_skipNumbers : Takes skipNumbers [0] () := fun _ => rfl

mutual

lemma takes_readNested {bytes : Bytes} {fuel : Nat} :
    (type : SigType) → type.write = .ok bytes → bytes.length ≤ fuel →
      Takes (readNested fuel) bytes type.reduced
  | .builtin type, h, hfuel => by
    simp only [write] at h
    split at h
    · rename_i code hcode
      cases h
      obtain ⟨fuel, rfl, -⟩ := exists_fuel hfuel
      refine .afterByte ?_
      rw [Builtin.ofElementCode?_of_elementCode hcode]
      exact .pure _
    · cases h
  | .classType token, h, hfuel | .valueType token, h, hfuel => by
    simp only [write] at h
    obtain ⟨coded, hcoded, h⟩ := bind_eq_ok h
    cases h
    obtain ⟨fuel, rfl, -⟩ := exists_fuel hfuel
    exact .afterByte ((Token.takes_read hcoded).map _)
  | .typeParam number, h, hfuel | .methodParam number, h, hfuel => by
    simp only [write] at h
    obtain ⟨coded, hcoded, h⟩ := bind_eq_ok h
    cases h
    obtain ⟨fuel, rfl, -⟩ := exists_fuel hfuel
    exact .afterByte ((Takes.compressed hcoded).map _)
  | .vector inner, h, hfuel | .byRef inner, h, hfuel | .pointer inner, h, hfuel => by
    simp only [write] at h
    obtain ⟨written, hwritten, h⟩ := bind_eq_ok h
    cases h
    obtain ⟨fuel, rfl, hrest⟩ := exists_fuel hfuel
    exact .afterByte ((takes_readNested inner hwritten hrest).map _)
  | .array element rank, h, hfuel => by
    simp only [write] at h
    obtain ⟨written, hwritten, h⟩ := bind_eq_ok h
    obtain ⟨coded, hcoded, h⟩ := bind_eq_ok h
    cases h
    obtain ⟨fuel, rfl, hrest⟩ := exists_fuel hfuel
    simp only [List.length_append] at hrest
    have helement : Takes (readNested fuel) written element.reduced :=
      takes_readNested element hwritten (by omega)
    have hbounds : Takes (do skipNumbers; skipNumbers; pure (SigType.array element.reduced rank))
        [0, 0] (.array element.reduced rank) := takes_skipNumbers.bind (takes_skipNumbers.bind (.pure _))
    rw [List.append_assoc]
    exact .afterByte (helement.bind ((Takes.compressed hcoded).bind hbounds))
  | .inst generic isValue args, h, hfuel => by
    simp only [write] at h
    obtain ⟨coded, hcoded, h⟩ := bind_eq_ok h
    obtain ⟨count, hcount, h⟩ := bind_eq_ok h
    obtain ⟨written, hwritten, h⟩ := bind_eq_ok h
    cases h
    obtain ⟨fuel, rfl, hrest⟩ := exists_fuel hfuel
    simp only [List.length_append, List.length_cons] at hrest
    have hkind : Takes readInstanceKind [if isValue then Element.valueType else Element.classType]
        isValue := by
      cases isValue <;> exact fun _ => rfl
    have hargs : Takes (readTimes (readNested fuel) args.length) written (reducedEach args) :=
      takes_readTimes args hwritten (by omega)
    rw [List.append_assoc]
    exact .afterByte (hkind.bind ((Token.takes_read hcoded).bind
      ((Takes.compressed hcount).bind (hargs.map _))))

lemma takes_readTimes {bytes : Bytes} {fuel : Nat} :
    (types : List SigType) → writeAll types = .ok bytes → bytes.length ≤ fuel →
      Takes (readTimes (readNested fuel) types.length) bytes (reducedEach types)
  | [], h, _ => by
    simp only [writeAll] at h
    cases h
    exact .pure []
  | type :: types, h, hfuel => by
    simp only [writeAll] at h
    obtain ⟨first, hfirst, h⟩ := bind_eq_ok h
    obtain ⟨rest, hrest, h⟩ := bind_eq_ok h
    cases h
    simp only [List.length_append] at hfuel
    have htype : Takes (readNested fuel) first type.reduced := takes_readNested type hfirst (by omega)
    exact htype.timesSucc (takes_readTimes types hrest (by omega))

end

section

variable {type : SigType} {bytes : Bytes} (h : type.write = .ok bytes)

include h

/-- A written type is read back, whatever follows it. -/
lemma takes_read : Takes read bytes type.reduced := by
  intro rest
  have hfuel : bytes.length ≤ (bytes ++ rest).length := by simp
  exact takes_readNested type h hfuel rest

lemma ofBlob_write : ofBlob bytes = .ok type.reduced := by
  have hread := (takes_read h).ofBlob []
  rwa [List.append_nil] at hread

/-- A written type does not begin with the mark before optional arguments. -/
lemma write_head : ∃ code rest, bytes = code :: rest ∧ (code == Element.sentinel) = false := by
  cases type with
  | builtin type =>
    cases type <;> simp only [write, Builtin.elementCode] at h <;> cases h <;>
      exact ⟨_, _, rfl, rfl⟩
  | inst generic isValue args =>
    simp only [write] at h
    obtain ⟨coded, -, h⟩ := bind_eq_ok h
    obtain ⟨count, -, h⟩ := bind_eq_ok h
    obtain ⟨written, -, h⟩ := bind_eq_ok h
    exact ⟨_, _, (Except.ok.inj h).symm, rfl⟩
  | array element rank =>
    simp only [write] at h
    obtain ⟨written, -, h⟩ := bind_eq_ok h
    obtain ⟨coded, -, h⟩ := bind_eq_ok h
    exact ⟨_, _, (Except.ok.inj h).symm, rfl⟩
  | classType _ | valueType _ | typeParam _ | methodParam _ | vector _ | byRef _ | pointer _ =>
    simp only [write] at h
    obtain ⟨written, -, h⟩ := bind_eq_ok h
    exact ⟨_, _, (Except.ok.inj h).symm, rfl⟩

end

lemma length_reducedEach (types : List SigType) : (reducedEach types).length = types.length := by
  induction types with
  | nil => rfl
  | cons type types ih => simp [reducedEach, ih]

end SigType

lemma takes_readParams {types : List SigType} {bytes : Bytes}
    (h : SigType.writeAll types = .ok bytes) :
    Takes (readParams types.length) bytes (SigType.reducedEach types) := by
  induction types generalizing bytes with
  | nil =>
    simp only [SigType.writeAll] at h
    cases h
    exact .pure []
  | cons type types ih =>
    simp only [SigType.writeAll] at h
    obtain ⟨first, hfirst, h⟩ := bind_eq_ok h
    obtain ⟨rest, hrest, h⟩ := bind_eq_ok h
    cases h
    have hparams := (SigType.takes_read hfirst).bind
      (f := fun type => do let rest ← readParams types.length; pure (type :: rest))
      ((ih hrest).map (type.reduced :: ·))
    intro suffix
    obtain ⟨code, tail, rfl, hcode⟩ := SigType.write_head hfirst
    have hskip : ((code :: tail) ++ rest ++ suffix).dropWhile (· == Element.sentinel) =
        (code :: tail) ++ rest ++ suffix := by
      simp [hcode]
    have hrun := hparams suffix
    rw [← hskip] at hrun
    exact hrun

namespace MethodSig

/-- The signature with its tokens as their codes hold them. -/
def reduced (sig : MethodSig) : MethodSig :=
  ⟨sig.hasThis, sig.generics, sig.ret.reduced, SigType.reducedEach sig.params⟩

/-- The first byte of a method signature. -/
def convention (hasThis : Bool) (isGeneric : Bool) : UInt8 :=
  (if hasThis then 0x20 else 0) + (if isGeneric then 0x10 else 0)

lemma write_eq (sig : MethodSig) : sig.write = (do
    let generics ← (if sig.generics > 0 then writeCompressed sig.generics else .ok [])
    let count ← writeCompressed sig.params.length
    let ret ← sig.ret.write
    let params ← SigType.writeAll sig.params
    .ok (convention sig.hasThis (sig.generics > 0) :: (generics ++ count ++ ret ++ params))) := by
  unfold write
  by_cases hgenerics : sig.generics > 0 <;> simp [hgenerics, convention] <;> rfl

/-- What is read behind the first byte. -/
def behindConvention (hasThis isGeneric : Bool) : Read MethodSig := do
  let generics ← (if isGeneric then readCompressed else pure 0)
  let count ← readCompressed
  let ret ← SigType.read
  let params ← readParams count
  pure ⟨hasThis, generics, ret, params⟩

lemma read_eq (hasThis isGeneric : Bool) (bytes : Bytes) :
    read.run (convention hasThis isGeneric :: bytes) = (behindConvention hasThis isGeneric).run bytes := by
  cases hasThis <;> cases isGeneric <;> rfl

/-- A written method signature is read back, whatever follows it. -/
lemma takes_read {sig : MethodSig} {bytes : Bytes} (h : sig.write = .ok bytes) :
    Takes read bytes sig.reduced := by
  obtain ⟨hasThis, generics, ret, params⟩ := sig
  rw [write_eq] at h
  obtain ⟨numbered, hnumbered, h⟩ := bind_eq_ok h
  obtain ⟨count, hcount, h⟩ := bind_eq_ok h
  obtain ⟨first, hret, h⟩ := bind_eq_ok h
  obtain ⟨rest, hparams, h⟩ := bind_eq_ok h
  cases h
  have hgenerics : Takes (if decide (generics > 0) then readCompressed else pure 0) numbered generics := by
    by_cases hpos : generics > 0
    · rw [if_pos hpos] at hnumbered
      simpa [hpos] using Takes.compressed hnumbered
    · obtain rfl : generics = 0 := by omega
      cases hnumbered
      exact .pure 0
  have hbehind : Takes (behindConvention hasThis (generics > 0)) (numbered ++ (count ++ (first ++ rest)))
      ⟨hasThis, generics, ret.reduced, SigType.reducedEach params⟩ :=
    hgenerics.bind ((Takes.compressed hcount).bind
      ((SigType.takes_read hret).bind ((takes_readParams hparams).map _)))
  intro suffix
  rw [List.cons_append, read_eq, List.append_assoc numbered, List.append_assoc numbered,
    List.append_assoc count]
  exact hbehind suffix

lemma ofBlob_write {sig : MethodSig} {bytes : Bytes} (h : sig.write = .ok bytes) :
    ofBlob bytes = .ok sig.reduced := by
  have hread := (takes_read h).ofBlob []
  rwa [List.append_nil] at hread

end MethodSig

namespace PropertySig

/-- The signature with its tokens as their codes hold them. -/
def reduced (sig : PropertySig) : PropertySig :=
  ⟨sig.hasThis, sig.type.reduced, SigType.reducedEach sig.params⟩

/-- The first byte of a property signature. -/
def convention (hasThis : Bool) : UInt8 := Convention.property + (if hasThis then 0x20 else 0)

/-- What is read behind the first byte. -/
def behindConvention (hasThis : Bool) : Read PropertySig := do
  let count ← readCompressed
  let type ← SigType.read
  let params ← readParams count
  pure ⟨hasThis, type, params⟩

lemma read_eq (hasThis : Bool) (bytes : Bytes) :
    read.run (convention hasThis :: bytes) = (behindConvention hasThis).run bytes := by
  cases hasThis <;> rfl

/-- A written property signature is read back, whatever follows it. -/
lemma takes_read {sig : PropertySig} {bytes : Bytes} (h : sig.write = .ok bytes) :
    Takes read bytes sig.reduced := by
  obtain ⟨hasThis, type, params⟩ := sig
  unfold write at h
  obtain ⟨count, hcount, h⟩ := bind_eq_ok h
  obtain ⟨first, htype, h⟩ := bind_eq_ok h
  obtain ⟨rest, hparams, h⟩ := bind_eq_ok h
  cases h
  have hbehind : Takes (behindConvention hasThis) (count ++ (first ++ rest))
      ⟨hasThis, type.reduced, SigType.reducedEach params⟩ :=
    (Takes.compressed hcount).bind ((SigType.takes_read htype).bind ((takes_readParams hparams).map _))
  intro suffix
  rw [List.append_assoc]
  exact (read_eq hasThis _).trans (hbehind suffix)

lemma ofBlob_write {sig : PropertySig} {bytes : Bytes} (h : sig.write = .ok bytes) :
    ofBlob bytes = .ok sig.reduced := by
  have hread := (takes_read h).ofBlob []
  rwa [List.append_nil] at hread

end PropertySig

end TypeAtlas.Metadata
