import Mathlib.Tactic.Tauto
import TypeAtlas.Proofs.SignatureRoundTrip

/-!
Signatures that are read and written again. Readers accept more forms of a value than writers
produce: over-long numbers, modifiers, marks and bounds that are skipped. Main statement: what
a reader of signatures made of any bytes can be written, takes no more bytes than were read,
and is read back as it was.
-/

namespace TypeAtlas.Metadata

variable {α β : Type}

/-- Whatever the step reads has a form, one that `form` admits, in no more bytes than the step
took from the front. -/
def Condenses (step : Read α) (form : α → Bytes → Prop) : Prop :=
  ∀ bytes rest value, step.run bytes = .ok (value, rest) →
    ∃ taken written, bytes = taken ++ rest ∧ form value written ∧ written.length ≤ taken.length

namespace Condenses

variable {step : Read α} {form form' : α → Bytes → Prop} {whole : β → Bytes → Prop}

/-- A form may be replaced by one that is no longer. -/
lemma shorten (h : Condenses step form)
    (hform : ∀ value written, form value written →
      ∃ shorter, form' value shorter ∧ shorter.length ≤ written.length) :
    Condenses step form' := by
  intro bytes rest value hrun
  obtain ⟨taken, written, hbytes, hwritten, hlen⟩ := h bytes rest value hrun
  obtain ⟨shorter, hshorter, hle⟩ := hform value written hwritten
  exact ⟨taken, shorter, hbytes, hshorter, Nat.le_trans hle hlen⟩

lemma pure {value : α} (h : form value []) : Condenses (Pure.pure value : Read α) form := by
  intro bytes rest read hrun
  cases hrun
  exact ⟨[], [], rfl, h, Nat.le_refl _⟩

lemma throw (cause : Malformed) : Condenses (MonadExcept.throw cause : Read α) form := by
  intro bytes rest value hrun
  cases hrun

lemma ite {p : Prop} [Decidable p] {other : Read α} (h : p → Condenses step form)
    (hother : ¬p → Condenses other form) : Condenses (if p then step else other) form := by
  split
  · exact h ‹_›
  · exact hother ‹_›

/-- A branch for one code. -/
lemma iteCode {code expected : UInt8} {other : Read α} {form : α → Bytes → Prop}
    (h : Condenses step fun x rest => form x (expected :: rest))
    (hother : Condenses other fun x rest => form x (code :: rest)) :
    Condenses (if code = expected then step else other) fun x rest => form x (code :: rest) :=
  ite (fun hcode => hcode ▸ h) fun _ => hother

/-- The form of a value is put together from the forms of what was read for it. -/
lemma bind {f : α → Read β} (h : Condenses step form)
    (hf : ∀ x first, form x first → Condenses (f x) fun y second => whole y (first ++ second)) :
    Condenses (step >>= f) whole := by
  intro bytes rest value hrun
  rw [StateT.run_bind] at hrun
  obtain ⟨⟨x, behind⟩, hx, hnext⟩ := bind_eq_ok hrun
  obtain ⟨taken, first, hbytes, hfirst, hlen⟩ := h bytes behind x hx
  obtain ⟨taken', second, hbehind, hsecond, hlen'⟩ := hf x first hfirst behind rest value hnext
  refine ⟨taken ++ taken', first ++ second, ?_, hsecond, ?_⟩
  · rw [hbytes, hbehind, List.append_assoc]
  · simp only [List.length_append]
    omega

/-- What is read need not be written. -/
lemma skip {f : α → Read β} (h : Condenses step form) (hf : ∀ x, Condenses (f x) whole) :
    Condenses (step >>= f) whole := by
  have hnothing : Condenses step fun _ written => written = [] :=
    h.shorten fun _ _ _ => ⟨[], rfl, Nat.zero_le _⟩
  refine hnothing.bind fun x first hfirst => ?_
  subst hfirst
  exact hf x

lemma map {wrap : α → β} (h : Condenses step form) (hwrap : ∀ x written, form x written → whole (wrap x) written) :
    Condenses (do let value ← step; Pure.pure (wrap value)) whole := by
  refine h.bind fun x written hform => pure ?_
  rw [List.append_nil]
  exact hwrap x written hform

lemma byte : Condenses readByte fun code written => written = [code] := by
  intro bytes rest code hrun
  cases bytes with
  | nil => cases hrun
  | cons first bytes =>
    obtain ⟨rfl, rfl⟩ := Prod.mk.inj (Except.ok.inj hrun)
    exact ⟨[first], [first], rfl, rfl, Nat.le_refl _⟩

/-- Of a byte at most one is kept. -/
lemma afterByteAs {f : UInt8 → Read β} (kept : UInt8 → Bytes) (hkept : ∀ code, (kept code).length ≤ 1)
    (hf : ∀ code, Condenses (f code) fun y rest => whole y (kept code ++ rest)) : Condenses (readByte >>= f) whole := by
  have hbyte : Condenses readByte fun code written => written = kept code := by
    refine byte.shorten fun code written hwritten => ⟨kept code, rfl, ?_⟩
    rw [hwritten]
    exact hkept code
  refine hbyte.bind fun code first hfirst => ?_
  subst hfirst
  exact hf code

lemma afterByte {f : UInt8 → Read β} (hf : ∀ code, Condenses (f code) fun y rest => whole y (code :: rest)) :
    Condenses (readByte >>= f) whole :=
  afterByteAs (fun code => [code]) (fun _ => Nat.le_refl _) hf

/-- Forms one after another make the form of all. -/
lemma times {many : List α → Bytes → Prop} (h : Condenses step form) (hnil : many [] [])
    (hcons : ∀ x xs first rest, form x first → many xs rest → many (x :: xs) (first ++ rest)) (n : Nat) :
    Condenses (readTimes step n) fun xs written => xs.length = n ∧ many xs written := by
  induction n with
  | zero => exact pure ⟨rfl, hnil⟩
  | succ n ih =>
    refine h.bind fun x first hfirst => ih.map ?_
    rintro xs rest ⟨hlen, hrest⟩
    exact ⟨congrArg (· + 1) hlen, hcons x xs first rest hfirst hrest⟩

lemma ofExcept {result : Except Malformed α} (h : ∀ x, result = .ok x → form x []) :
    Condenses (MonadExcept.ofExcept result : Read α) form := by
  cases result with
  | ok x => exact pure (h x rfl)
  | error cause => exact throw cause

/-- A value that is read from a blob, whatever stands behind it there. -/
lemma ofBlob (h : Condenses step form) {blob : Bytes} {value : α}
    (hread : (step.run blob).map (·.1) = .ok value) :
    ∃ written, form value written ∧ written.length ≤ blob.length := by
  obtain ⟨rest, hrun⟩ := exists_rest_of_map_eq_ok hread
  obtain ⟨taken, written, rfl, hform, hlen⟩ := h blob rest value hrun
  refine ⟨written, hform, ?_⟩
  rw [List.length_append]
  omega

end Condenses

/-- How many bytes a number takes at most. -/
lemma exists_writeCompressed_le {value : Nat} (h : value ≤ compressedLimit) :
    ∃ written, writeCompressed value = .ok written ∧ written.length ≤ 4 ∧
      (value < 0x4000 → written.length ≤ 2) ∧ (value < 0x80 → written.length ≤ 1) := by
  obtain ⟨written, hwritten⟩ := exists_writeCompressed.mpr h
  refine ⟨written, hwritten, ?_⟩
  rcases writeCompressed_eq_ok hwritten with ⟨-, rfl⟩ | ⟨⟨hge, -⟩, rfl⟩ | ⟨⟨hge, -⟩, rfl⟩
  · simp
  · simpa using hge
  · simp only [List.length_cons, List.length_nil]
    omega

/-- The shortest form of a number is no longer than any other. -/
lemma readCompressed_condenses :
    Condenses readCompressed fun value written => writeCompressed value = .ok written := by
  intro bytes rest value hread
  suffices hshort : ∃ taken, bytes = taken ++ rest ∧ value ≤ compressedLimit ∧ (taken.length = 4 ∨
      taken.length = 2 ∧ value < 0x4000 ∨ taken.length = 1 ∧ value < 0x80) by
    obtain ⟨taken, hbytes, hle, hlen⟩ := hshort
    obtain ⟨written, hwritten, hfour, htwo, hone⟩ := exists_writeCompressed_le hle
    exact ⟨taken, written, hbytes, hwritten, by omega⟩
  unfold compressedLimit
  obtain ⟨first, rfl, hsmall, rfl⟩ | ⟨first, second, rfl, hfirst, rfl⟩ |
    ⟨first, second, third, fourth, rfl, hfirst, rfl⟩ := readCompressed_eq_ok hread
  · exact ⟨[first], rfl, by omega, .inr (.inr ⟨rfl, hsmall⟩)⟩
  · have hsecond := second.toNat_lt
    exact ⟨[first, second], rfl, by omega, .inr (.inl ⟨rfl, by omega⟩)⟩
  · have hsecond := second.toNat_lt
    have hthird := third.toNat_lt
    have hfourth := fourth.toNat_lt
    exact ⟨[first, second, third, fourth], rfl, by omega, .inl rfl⟩

namespace Token

/-- The token has this code, and the code loses nothing of it. -/
def Stored (token : Token) (written : Bytes) : Prop := token.write = .ok written ∧ token.reduced = token

lemma code_of_ofCode {coded : Nat} {token : Token} (h : ofCode coded = .ok token)
    (hle : coded ≤ compressedLimit) : token.code = coded ∧ token.row < 0x40000000 := by
  unfold compressedLimit at hle
  unfold ofCode at h
  split at h
  all_goals
    cases h
    try
      simp only [code, row, tag]
      omega

lemma read_condenses : Condenses Token.read Stored := by
  refine readCompressed_condenses.bind fun coded written hwritten => .ofExcept fun token htoken => ?_
  obtain ⟨hcode, hrow⟩ := code_of_ofCode htoken (exists_writeCompressed.mp ⟨written, hwritten⟩)
  refine ⟨?_, reduced_eq_self hrow⟩
  rw [List.append_nil, Token.write, hcode, hwritten]

end Token

namespace SigType

/-- The type is written like this, and its tokens lose nothing. -/
def Stored (type : SigType) (written : Bytes) : Prop := type.write = .ok written ∧ type.reduced = type

/-- The types are written like this one after another, and their tokens lose nothing. -/
def StoredAll (types : List SigType) (written : Bytes) : Prop :=
  writeAll types = .ok written ∧ reducedEach types = types

lemma storedAll_nil : StoredAll [] [] := ⟨rfl, rfl⟩

lemma storedAll_cons {type : SigType} {types : List SigType} {first rest : Bytes}
    (hfirst : type.Stored first) (hrest : StoredAll types rest) :
    StoredAll (type :: types) (first ++ rest) := by
  refine ⟨?_, ?_⟩
  · rw [writeAll, hfirst.1, hrest.1]
    rfl
  · rw [reducedEach, hfirst.2, hrest.2]

/-- At least the byte of their number is taken. -/
lemma skipNumbers_condenses : Condenses skipNumbers fun _ written => written = [0] := by
  have hcount : Condenses readCompressed fun _ written => written = [0] := by
    refine readCompressed_condenses.shorten fun value written hwritten => ⟨[0], rfl, ?_⟩
    exact List.length_pos_iff.mpr (writeCompressed_ne_nil hwritten)
  have hnumbers : ∀ count, Condenses (readTimes readCompressed count) fun xs _ => xs.length = count ∧ True :=
    readCompressed_condenses.times trivial fun _ _ _ _ _ _ => trivial
  refine hcount.bind fun count first hfirst => (hnumbers count).skip fun _ => .pure ?_
  rw [hfirst, List.append_nil]

lemma readInstanceKind_condenses : Condenses readInstanceKind fun isValue written =>
    written = [if isValue then Element.valueType else Element.classType] := by
  refine .afterByte fun code => ?_
  split
  · rename_i hcode
    exact .pure (by simp [hcode])
  · split
    · rename_i hcode
      exact .pure (by simp [hcode])
    · exact .throw _

/-- What is kept of the first byte of a type: modifiers and pinned marks are left out. -/
def kept (code : UInt8) : Bytes :=
  if code = Element.requiredModifier ∨ code = Element.optionalModifier ∨ code = Element.pinned then []
  else [code]

lemma length_kept_le (code : UInt8) : (kept code).length ≤ 1 := by
  unfold kept
  split <;> simp

lemma kept_of_builtin {code : UInt8} {type : Builtin} (h : Builtin.ofElementCode? code = some type) :
    kept code = [code] := by
  refine if_neg ?_
  rintro (rfl | rfl | rfl) <;> cases h

/-- What is read as a type is written without modifiers, pinned marks and bounds. -/
lemma readNested_condenses (fuel : Nat) : Condenses (readNested fuel) Stored := by
  induction fuel with
  | zero => exact .throw _
  | succ fuel ih =>
    refine .afterByteAs kept length_kept_le fun code => ?_
    split
    · rename_i type htype
      rw [kept_of_builtin htype]
      refine .pure ⟨?_, rfl⟩
      rw [write, Builtin.elementCode_of_ofElementCode? htype]
      rfl
    · refine .ite (fun hmodifier => ?_) fun hmodifier => ?_
      · have hkept : kept code = [] := if_pos (by tauto)
        rw [hkept]
        exact readCompressed_condenses.skip fun _ => ih
      refine .ite (fun hpinned => ?_) fun hpinned => ?_
      · have hkept : kept code = [] := if_pos (by tauto)
        rw [hkept]
        exact ih
      have hkept : kept code = [code] := if_neg (by tauto)
      rw [hkept]
      refine .iteCode (ih.map fun target written h => ⟨by rw [write, h.1]; rfl, by rw [reduced, h.2]⟩) ?_
      refine .iteCode (ih.map fun target written h => ⟨by rw [write, h.1]; rfl, by rw [reduced, h.2]⟩) ?_
      refine .iteCode (Token.read_condenses.map fun token written h => ?_) ?_
      · exact ⟨by rw [write, h.1]; rfl, by rw [reduced, h.2]⟩
      refine .iteCode (Token.read_condenses.map fun token written h => ?_) ?_
      · exact ⟨by rw [write, h.1]; rfl, by rw [reduced, h.2]⟩
      refine .iteCode (readCompressed_condenses.map fun number written h => ⟨by rw [write, h]; rfl, rfl⟩) ?_
      refine .iteCode (readCompressed_condenses.map fun number written h => ⟨by rw [write, h]; rfl, rfl⟩) ?_
      refine .iteCode (ih.map fun element written h => ⟨by rw [write, h.1]; rfl, by rw [reduced, h.2]⟩) ?_
      refine .iteCode ?_ (.iteCode ?_ ?_)
      · refine ih.bind fun element first helement => ?_
        refine readCompressed_condenses.bind fun rank second hrank => ?_
        refine skipNumbers_condenses.bind fun _ sizes hsizes => ?_
        refine skipNumbers_condenses.map fun _ bounds hbounds => ⟨?_, by rw [reduced, helement.2]⟩
        subst hsizes hbounds
        rw [write, helement.1, hrank]
        refine congrArg Except.ok ?_
        simp only [List.cons_append, List.append_assoc, List.nil_append]
      · refine readInstanceKind_condenses.bind fun isValue kind hkind => ?_
        refine Token.read_condenses.bind fun generic first hgeneric => ?_
        refine readCompressed_condenses.bind fun count second hcount => ?_
        refine (ih.times storedAll_nil (fun _ _ _ _ => storedAll_cons) count).map ?_
        rintro args third ⟨rfl, hargs⟩
        subst hkind
        refine ⟨?_, by rw [reduced, hgeneric.2, hargs.2]⟩
        rw [write, hgeneric.1, hcount, hargs.1]
        refine congrArg Except.ok ?_
        simp only [List.cons_append, List.append_assoc, List.nil_append]
      exact .ite (fun _ => .throw _) fun _ => .throw _

lemma read_condenses : Condenses read Stored :=
  fun bytes rest type hrun => readNested_condenses bytes.length bytes rest type hrun

end SigType

/-- Sentinels are left out. -/
lemma readParams_condenses (count : Nat) :
    Condenses (readParams count) fun types written => types.length = count ∧ SigType.StoredAll types written := by
  have hsentinels : Condenses (modify (·.dropWhile (· == Element.sentinel)) : Read Unit)
      fun _ written => written = [] := by
    intro bytes rest value hrun
    obtain ⟨-, rfl⟩ := Prod.mk.inj (Except.ok.inj hrun)
    exact ⟨bytes.takeWhile (· == Element.sentinel), [], List.takeWhile_append_dropWhile.symm, rfl, Nat.zero_le _⟩
  induction count with
  | zero => exact .pure ⟨rfl, SigType.storedAll_nil⟩
  | succ count ih =>
    refine hsentinels.skip fun _ => SigType.read_condenses.bind fun type first hfirst => ih.map ?_
    rintro types rest ⟨hlen, hrest⟩
    exact ⟨congrArg (· + 1) hlen, SigType.storedAll_cons hfirst hrest⟩

namespace MethodSig

/-- A number of generic parameters is written only where there are some. -/
lemma generics_condenses (isGeneric : Bool) :
    Condenses (if isGeneric then readCompressed else pure 0) fun generics written =>
      (if generics > 0 then writeCompressed generics else .ok []) = .ok written := by
  cases isGeneric with
  | false => exact .pure rfl
  | true =>
    refine readCompressed_condenses.shorten fun generics written hwritten => ?_
    by_cases hpos : generics > 0
    · exact ⟨written, (if_pos hpos).trans hwritten, Nat.le_refl _⟩
    · exact ⟨[], if_neg hpos, Nat.zero_le _⟩

/-- The signature is written like this behind some first byte, and its tokens lose nothing. -/
def StoredBehind (sig : MethodSig) (written : Bytes) : Prop :=
  ∃ first behind, written = first :: behind ∧
    sig.write = .ok (convention sig.hasThis (sig.generics > 0) :: behind) ∧ sig.reduced = sig

lemma read_cases : MethodSig.read = (do
    let first ← readByte
    if Convention.kind first = Convention.property then throw .propertyForMethod
    else behindConvention (Convention.hasThis first) (Convention.isGeneric first)) := by
  unfold MethodSig.read behindConvention
  congr 1
  funext first
  by_cases hkind : Convention.kind first = Convention.property
  · rw [if_pos hkind, if_pos hkind]
    rfl
  · rw [if_neg hkind, if_neg hkind]
    cases Convention.isGeneric first <;> rfl

lemma behindConvention_condenses (first : UInt8) (hasThis isGeneric : Bool) :
    Condenses (behindConvention hasThis isGeneric) fun sig written => sig.StoredBehind (first :: written) := by
  refine (generics_condenses isGeneric).bind fun generics numbered hnumbered => ?_
  refine readCompressed_condenses.bind fun count counted hcounted => ?_
  refine SigType.read_condenses.bind fun ret returned hreturned => ?_
  refine (readParams_condenses count).map ?_
  rintro params passed ⟨rfl, hpassed⟩
  refine ⟨first, _, rfl, ?_, ?_⟩
  · rw [write_eq]
    dsimp only
    rw [hnumbered, hcounted, hreturned.1, hpassed.1]
    refine congrArg Except.ok ?_
    simp only [List.append_assoc]
  · rw [reduced, hreturned.2, hpassed.2]

/-- Unused bits of the first byte are left out, and the mark of a generic method where it has
no generic parameters. -/
lemma read_condenses :
    Condenses MethodSig.read fun sig written => sig.write = .ok written ∧ sig.reduced = sig := by
  have hread : Condenses MethodSig.read StoredBehind := by
    rw [read_cases]
    refine .afterByte fun first => ?_
    split
    · exact .throw _
    · exact behindConvention_condenses first _ _
  refine hread.shorten ?_
  rintro sig _ ⟨first, behind, rfl, hwrite, hreduced⟩
  exact ⟨_, ⟨hwrite, hreduced⟩, Nat.le_refl _⟩

end MethodSig

namespace PropertySig

lemma read_cases : PropertySig.read = (do
    let first ← readByte
    if Convention.kind first ≠ Convention.property then throw (.propertyStart first)
    else behindConvention (Convention.hasThis first)) := rfl

/-- Unused bits of the first byte are left out. -/
lemma read_condenses :
    Condenses PropertySig.read fun sig written => sig.write = .ok written ∧ sig.reduced = sig := by
  rw [read_cases]
  refine .afterByteAs (fun first => [convention (Convention.hasThis first)]) (fun _ => Nat.le_refl _) fun first => ?_
  split
  · exact .throw _
  · refine readCompressed_condenses.bind fun count counted hcounted => ?_
    refine SigType.read_condenses.bind fun type typed htyped => ?_
    refine (readParams_condenses count).map ?_
    rintro params passed ⟨rfl, hpassed⟩
    refine ⟨?_, by rw [reduced, htyped.2, hpassed.2]⟩
    rw [write, hcounted, htyped.1, hpassed.1]
    refine congrArg Except.ok ?_
    simp only [List.cons_append, List.append_assoc, List.nil_append]
    rfl

end PropertySig

/-- Whatever bytes a signature was read from, it can be written in no more bytes than were
taken for it, and what is written is read as the same signature again, whatever follows. -/
theorem read_signatures_written_back :
    (∀ bytes type rest, SigType.read.run bytes = .ok (type, rest) →
      ∃ taken written, bytes = taken ++ rest ∧ type.write = .ok written ∧
        written.length ≤ taken.length ∧
        ∀ more, SigType.read.run (written ++ more) = .ok (type, more)) ∧
    (∀ blob sig, MethodSig.ofBlob blob = .ok sig →
      ∃ written, sig.write = .ok written ∧ written.length ≤ blob.length ∧
        ∀ more, MethodSig.ofBlob (written ++ more) = .ok sig) ∧
    ∀ blob sig, PropertySig.ofBlob blob = .ok sig →
      ∃ written, sig.write = .ok written ∧ written.length ≤ blob.length ∧
        ∀ more, PropertySig.ofBlob (written ++ more) = .ok sig := by
  refine ⟨?_, ?_, ?_⟩
  · intro bytes type rest hread
    obtain ⟨taken, written, hbytes, ⟨hwrite, hreduced⟩, hlen⟩ := SigType.read_condenses bytes rest type hread
    refine ⟨taken, written, hbytes, hwrite, hlen, fun more => ?_⟩
    have hback := SigType.takes_read hwrite more
    rwa [hreduced] at hback
  · intro blob sig hread
    obtain ⟨written, ⟨hwrite, hreduced⟩, hlen⟩ := MethodSig.read_condenses.ofBlob hread
    refine ⟨written, hwrite, hlen, fun more => ?_⟩
    exact ((MethodSig.takes_read hwrite).ofBlob more).trans (congrArg Except.ok hreduced)
  · intro blob sig hread
    obtain ⟨written, ⟨hwrite, hreduced⟩, hlen⟩ := PropertySig.read_condenses.ofBlob hread
    refine ⟨written, hwrite, hlen, fun more => ?_⟩
    exact ((PropertySig.takes_read hwrite).ofBlob more).trans (congrArg Except.ok hreduced)

/-- A method signature in 16 bytes: marked generic without generic parameters, with a modifier, an
over-long row, array bounds and a mark before its parameter. -/
def looseMethod : Bytes :=
  [0x31, 0x00, 0x01, 0x1f, 0x05, 0x12, 0x80, 0x09, 0x41, 0x14, 0x08, 0x02, 0x01, 0x03, 0x01, 0x00]

/-- The same signature in 9 bytes. -/
def plainMethod : Bytes := [0x20, 0x01, 0x12, 0x09, 0x14, 0x08, 0x02, 0x00, 0x00]

def methodOfLoose : MethodSig := ⟨true, 0, .classType (.reference 2), [.array (.builtin .int) 2]⟩

theorem read_signatures_written_back_loose :
    MethodSig.ofBlob looseMethod = .ok methodOfLoose ∧ methodOfLoose.write = .ok plainMethod ∧
      ∃ written, methodOfLoose.write = .ok written ∧ written.length ≤ looseMethod.length ∧
        ∀ more, MethodSig.ofBlob (written ++ more) = .ok methodOfLoose :=
  ⟨rfl, rfl, read_signatures_written_back.2.1 looseMethod methodOfLoose rfl⟩

end TypeAtlas.Metadata
