import TypeAtlas.Proofs.AttributeCodec
import TypeAtlas.Proofs.Condensing

/-!
Values of attributes that are read and written again. Main statement: a complete value that
was read from any bytes can be written, and its fixed arguments are for the parameters of the
constructor it was read for, those apart that stand for an object and bring their own tag.
-/

namespace TypeAtlas.Metadata

variable {type : Builtin} {bytes rest : Bytes} {n : Nat}

lemma writeLittle_little (bytes : Bytes) : writeLittle bytes.length (little bytes) = bytes := by
  induction bytes with
  | nil => rfl
  | cons byte bytes ih =>
    have hbyte := byte.toNat_lt
    have hlow : (byte.toNat + 256 * little bytes).toUInt8 = byte := by
      apply UInt8.toNat_inj.mp
      rw [Nat.toUInt8, UInt8.toNat_ofNat']
      omega
    have hhigh : (byte.toNat + 256 * little bytes) / 256 = little bytes := by omega
    change (byte.toNat + 256 * little bytes).toUInt8 ::
      writeLittle bytes.length ((byte.toNat + 256 * little bytes) / 256) = byte :: bytes
    rw [hlow, hhigh, ih]

lemma little_lt (bytes : Bytes) : little bytes < Nat.pow 256 bytes.length := by
  induction bytes with
  | nil => exact Nat.one_pos
  | cons byte bytes ih =>
    have hbyte := byte.toNat_lt
    have hpow : Nat.pow 256 (byte :: bytes).length = Nat.pow 256 bytes.length * 256 := rfl
    change byte.toNat + 256 * little bytes < _
    rw [hpow]
    omega

/-- The bytes of a number are those it is written in. -/
lemma readLittle_eq_ok {value : Nat} (h : (readLittle n).run bytes = .ok (value, rest)) :
    bytes = writeLittle n value ++ rest ∧ value < Nat.pow 256 n := by
  change readLittle n bytes = _ at h
  rw [readLittle] at h
  split at h
  · cases h
  · rename_i hlen
    cases h
    have hn : (bytes.take n).length = n := by
      rw [List.length_take]
      omega
    change bytes = writeLittle n (little (bytes.take n)) ++ bytes.drop n ∧ little (bytes.take n) < Nat.pow 256 n
    have hback := writeLittle_little (bytes.take n)
    have hlt := little_lt (bytes.take n)
    rw [hn] at hback hlt
    rw [hback]
    exact ⟨(List.take_append_drop n bytes).symm, hlt⟩

/-- Bytes that can be read as text are the bytes of that text. -/
lemma encode_of_decode? {text : String} (h : Text.Utf8.decode? bytes = some text) :
    Text.Utf8.encode text = bytes := by
  obtain ⟨chars, hchars, rfl⟩ := Option.map_eq_some_iff.mp h
  have hback := ByteArray.utf8Encode_get_utf8Decode? (b := bytes.toByteArray) (h := by rw [hchars]; rfl)
  simp only [hchars, Option.get_some] at hback
  refine List.toByteArray_inj.mp ?_
  rw [Text.Utf8.encode, String.toList_ofList]
  exact hback

/-- A text is read from the mark for none, or from its bytes behind their number. -/
lemma readText_eq_ok {value : Option String} (h : readText.run bytes = .ok (value, rest)) :
    (value = none ∧ bytes = noText :: rest) ∨
      ∃ text, value = some text ∧
        readCompressed.run bytes = .ok ((Text.Utf8.encode text).length, Text.Utf8.encode text ++ rest) := by
  change readText bytes = _ at h
  cases bytes with
  | nil => cases h
  | cons first behind =>
    rw [readText] at h
    split at h
    · rename_i hfirst
      cases h
      exact .inl ⟨rfl, by rw [hfirst]⟩
    · split at h
      · cases h
      · rename_i length bytes hlength
        split at h
        · cases h
        · rename_i hlen
          split at h
          · rename_i text htext
            cases h
            have hencode := encode_of_decode? htext
            have htake : (bytes.take length).length = length := by
              rw [List.length_take]
              omega
            refine .inr ⟨text, rfl, ?_⟩
            rw [hencode, htake, List.take_append_drop]
            exact hlength
          · cases h

lemma readLittle_condenses (n : Nat) :
    Condenses (readLittle n) fun value written => written = writeLittle n value ∧ value < Nat.pow 256 n := by
  intro bytes rest value h
  obtain ⟨hbytes, hlt⟩ := readLittle_eq_ok h
  exact ⟨_, _, hbytes, ⟨rfl, hlt⟩, Nat.le_refl _⟩

/-- Texts with a written form. -/
def TextFits (value : Option String) : Prop := ∀ text ∈ value, text.utf8ByteSize ≤ 0x1fffffff

lemma readText_condenses :
    Condenses readText fun value written => writeText value = .ok written ∧ TextFits value := by
  intro bytes rest value h
  rcases readText_eq_ok h with ⟨rfl, rfl⟩ | ⟨text, rfl, hlength⟩
  · exact ⟨[noText], [noText], rfl, ⟨rfl, by simp [TextFits]⟩, Nat.le_refl _⟩
  · obtain ⟨taken, written, hbytes, hwritten, hlen⟩ := readCompressed_condenses _ _ _ hlength
    refine ⟨taken ++ Text.Utf8.encode text, written ++ Text.Utf8.encode text, ?_, ⟨?_, ?_⟩, ?_⟩
    · rw [hbytes, List.append_assoc]
    · rw [writeText, hwritten]
      rfl
    · rintro _ ⟨⟩
      rw [← Argument.length_encode]
      exact exists_writeCompressed.mp ⟨written, hwritten⟩
    · simp only [List.length_append]
      omega

namespace Argument

variable {wrap : Nat → Argument}

/-- The argument has this written form, which holds all of it. -/
def Stored (argument : Argument) (written : Bytes) : Prop := argument.write = .ok written ∧ argument.Fits

lemma fits_text {value : Option String} (h : TextFits value) :
    (text value).Fits ∧ (typeName value).Fits := by
  cases value with
  | none => exact ⟨trivial, trivial⟩
  | some text => exact ⟨h text rfl, h text rfl⟩

/-- A character that was read fits: half of a pair was replaced. -/
lemma toNat_charOfUnit {unit : Nat} (h : unit < 0x10000) :
    (charOfUnit unit).toNat = if 0xd800 ≤ unit ∧ unit ≤ 0xdfff then 0xfffd else unit := by
  unfold charOfUnit
  split
  · rfl
  · have hvalid : unit.isValidChar := by
      unfold Nat.isValidChar
      omega
    rw [Char.ofNat, dif_pos hvalid]
    rfl

/-- The builtin types whose arguments are numbers of some bytes, and the argument that each
number stands for. -/
def number? : Builtin → Option (Nat × (Nat → Argument))
  | .sbyte => some (1, fun number => int8 number.toUInt8.toInt8)
  | .short => some (2, fun number => int16 number.toUInt16.toInt16)
  | .ushort => some (2, fun number => uint16 number.toUInt16)
  | .int => some (4, fun number => int32 number.toUInt32.toInt32)
  | .uint => some (4, fun number => uint32 number.toUInt32)
  | .long => some (8, fun number => int64 number.toUInt64.toInt64)
  | .ulong => some (8, fun number => uint64 number.toUInt64)
  | .float => some (4, fun number => single number.toUInt32)
  | .double => some (8, fun number => double number.toUInt64)
  | _ => none

lemma readBuiltin_of_number (h : number? type = some (n, wrap)) :
    readBuiltin type = (do let value ← readLittle n; pure (some (wrap value))) := by
  cases type <;> cases h <;> rfl

/-- A number is written in the bytes it was read from. -/
lemma stored_number {number : Nat} (h : number? type = some (n, wrap)) (hlt : number < Nat.pow 256 n) :
    (wrap number).builtin = some type ∧ (wrap number).Stored (writeLittle n number) := by
  have hmod : ∀ m, number < m → number % m = number := fun m hm => Nat.mod_eq_of_lt hm
  cases type <;> cases h <;> refine ⟨rfl, ?_, trivial⟩ <;> simp [write, hmod _ hlt]

lemma number_condenses (h : number? type = some (n, wrap)) :
    Condenses (readBuiltin type) fun found written =>
      ∀ argument ∈ found, argument.builtin = some type ∧ argument.Stored written := by
  rw [readBuiltin_of_number h]
  refine (readLittle_condenses n).map ?_
  rintro number _ ⟨rfl, hlt⟩ _ ⟨⟩
  exact stored_number h hlt

/-- What is read as an argument of a builtin type is one. Every byte but zero is read as the
true value, which is written as one. -/
lemma readBuiltin_condenses (type : Builtin) :
    Condenses (readBuiltin type) fun found written =>
      ∀ argument ∈ found, argument.builtin = some type ∧ argument.Stored written := by
  cases type with
  | bool =>
    refine .afterByteAs (fun byte => [if byte != 0 then 1 else 0]) (fun _ => Nat.le_refl _) fun byte => .pure ?_
    rintro _ ⟨⟩
    exact ⟨rfl, rfl, trivial⟩
  | byte =>
    refine .afterByte fun byte => .pure ?_
    rintro _ ⟨⟩
    exact ⟨rfl, rfl, trivial⟩
  | char =>
    have hunit : Condenses (readLittle 2) fun unit written =>
        written = writeLittle 2 (charOfUnit unit).toNat ∧ unit < 0x10000 := by
      refine (readLittle_condenses 2).shorten ?_
      rintro unit _ ⟨rfl, hlt⟩
      exact ⟨_, ⟨rfl, hlt⟩, by simp only [length_writeLittle, Nat.le_refl]⟩
    refine hunit.map ?_
    rintro unit _ ⟨rfl, hlt⟩ _ ⟨⟩
    refine ⟨rfl, rfl, ?_⟩
    change (charOfUnit unit).toNat ≤ 0xffff
    rw [toNat_charOfUnit hlt]
    split <;> omega
  | string =>
    refine readText_condenses.map ?_
    rintro value written ⟨hwritten, hfits⟩ _ ⟨⟩
    exact ⟨rfl, hwritten, (fits_text hfits).1⟩
  | decimal => exact .pure (by simp)
  | nint => exact .pure (by simp)
  | nuint => exact .pure (by simp)
  | object => exact .pure (by simp)
  | void => exact .pure (by simp)
  | _ => exact number_condenses rfl

/-- The tags of boxes are not written. -/
lemma unbox_condenses (tag : UInt8) : Condenses (unbox tag) fun _ written => written = [] := by
  intro bytes
  induction bytes generalizing tag with
  | nil =>
    intro rest value h
    change unbox tag [] = _ at h
    rw [unbox] at h
    split at h
    · cases h
    · cases h
      exact ⟨[], [], rfl, rfl, Nat.le_refl _⟩
  | cons byte bytes ih =>
    intro rest value h
    change unbox tag (byte :: bytes) = _ at h
    rw [unbox] at h
    split at h
    · obtain ⟨taken, written, hbytes, hwritten, hlen⟩ := ih byte rest value h
      exact ⟨byte :: taken, written, congrArg (byte :: ·) hbytes, hwritten, Nat.le_succ_of_le hlen⟩
    · cases h
      exact ⟨[], [], rfl, rfl, Nat.le_refl _⟩

lemma readTagged_condenses (tag : UInt8) :
    Condenses (readTagged tag) fun found written => ∀ argument ∈ found, argument.Stored written := by
  refine (unbox_condenses tag).bind fun tag first hfirst => ?_
  subst hfirst
  split
  · refine readText_condenses.map ?_
    rintro name written ⟨hwritten, hfits⟩ _ ⟨⟩
    exact ⟨hwritten, (fits_text hfits).2⟩
  · split
    · rename_i type _
      have hbuiltin := readBuiltin_condenses type
      refine hbuiltin.shorten fun found written h => ⟨written, ?_, Nat.le_refl _⟩
      exact fun argument hargument => (h argument hargument).2
    · exact .pure (by simp)

end Argument

/-- Parameters whose arguments bring their own tag. -/
def SigType.isObject : SigType → Bool
  | .builtin .object => true
  | _ => false

lemma SigType.isObject_eq_false {param : SigType} (h : param ≠ .builtin .object) : param.isObject = false := by
  unfold isObject
  split
  · exact absurd rfl h
  · rfl

namespace Argument

lemma readTagged_elementCode {code : UInt8} (h : type.elementCode = some code) :
    readTagged code = readBuiltin type := by
  obtain ⟨hboxed, htype⟩ := elementCode_ne h
  funext bytes
  have hunbox : (unbox code).run bytes = .ok (code, bytes) := takes_unbox hboxed bytes
  change (unbox code >>= _).run bytes = _
  rw [StateT.run_bind, hunbox]
  change (if code = typeTag then _ else _ : Read (Option Argument)) bytes = _
  rw [if_neg htype, Builtin.ofElementCode?_of_elementCode h]

/-- A parameter of a builtin type other than `object` is read without a tag. -/
lemma readFixed_builtin (m : Module) (h : type ≠ .object) : readFixed m (.builtin type) = readBuiltin type := by
  cases hcode : type.elementCode with
  | none =>
    cases type <;> cases hcode
    rfl
  | some code =>
    rw [readFixed, hcode]
    · exact readTagged_elementCode hcode
    · exact h

/-- What is read for a parameter is for it, or is the argument for an object and was read
behind its tag. -/
lemma readFixed_condenses (m : Module) (param : SigType) :
    Condenses (readFixed m param) fun found written => ∀ argument ∈ found,
      if param.isObject then ∃ tag behind, written = tag :: behind ∧ argument.Stored behind
      else IsFor m param argument ∧ argument.Stored written := by
  cases param with
  | builtin type =>
    by_cases hobject : type = .object
    · subst hobject
      refine .afterByte fun tag => (readTagged_condenses tag).shorten fun found written h => ?_
      exact ⟨written, fun argument hargument => ⟨tag, written, rfl, h argument hargument⟩, Nat.le_refl _⟩
    · have hfor : Condenses (readFixed m (.builtin type)) fun found written => ∀ argument ∈ found,
          IsFor m (.builtin type) argument ∧ argument.Stored written := by
        rw [readFixed_builtin m hobject]
        refine (readBuiltin_condenses type).shorten fun found written h => ⟨written, ?_, Nat.le_refl _⟩
        exact fun argument hargument => ⟨.builtin (h argument hargument).1, (h argument hargument).2⟩
      cases type with
      | object => exact absurd rfl hobject
      | _ => exact hfor
  | classType token =>
    have htoken : Condenses (MonadExcept.ofExcept (m.typeName token))
        fun name written => m.typeName token = .ok name ∧ written = [] :=
      .ofExcept fun name hname => ⟨hname, rfl⟩
    refine htoken.bind ?_
    rintro name _ ⟨hname, rfl⟩
    split
    · rename_i htype
      subst htype
      refine readText_condenses.map ?_
      rintro name written ⟨hwritten, hfits⟩ _ ⟨⟩
      exact ⟨.type name hname, hwritten, (fits_text hfits).2⟩
    · exact .pure (by simp)
  | _ => exact .pure (by simp)

end Argument

namespace AttributeValue

/-- The arguments are for the parameters, those for objects apart, and can be written. -/
structure FixedFor (m : Module) (params : List SigType) (arguments : List Argument) : Prop where
  isFor : List.Forall₂ (fun param argument => param.isObject = false → Argument.IsFor m param argument)
    params arguments
  fits : ∀ argument ∈ arguments, argument.Fits

/-- Every parameter that stands for an object takes one byte more than is written. -/
lemma readFixed_condenses (m : Module) (params : List SigType) :
    Condenses (readFixed m params) fun (arguments, complete) written => complete = true →
      FixedFor m params arguments ∧ ∃ fixed, writeFixed arguments = .ok fixed ∧
        written.length = fixed.length + params.countP SigType.isObject := by
  induction params with
  | nil => exact .pure fun _ => ⟨⟨.nil, by simp⟩, [], rfl, rfl⟩
  | cons param params ih =>
    refine (Argument.readFixed_condenses m param).bind fun found first hfirst => ?_
    cases found with
    | none => exact .pure (by simp)
    | some argument =>
      refine ih.map ?_
      rintro ⟨arguments, complete⟩ rest hrest rfl
      obtain ⟨⟨hfor, hfits⟩, fixed, hfixed, hlen⟩ := hrest rfl
      have hargument := hfirst argument rfl
      obtain ⟨hisFor, written, hwritten, hfirstLen⟩ :
          (param.isObject = false → Argument.IsFor m param argument) ∧ ∃ written, argument.Stored written ∧
            first.length = written.length + if param.isObject then 1 else 0 := by
        cases hobject : param.isObject with
        | true =>
          rw [hobject, if_pos rfl] at hargument
          obtain ⟨tag, behind, rfl, hbehind⟩ := hargument
          exact ⟨nofun, behind, hbehind, rfl⟩
        | false =>
          rw [hobject, if_neg (by decide)] at hargument
          exact ⟨fun _ => hargument.1, first, hargument.2, rfl⟩
      refine ⟨⟨.cons hisFor hfor, ?_⟩, written ++ fixed, ?_, ?_⟩
      · intro other hother
        rcases List.mem_cons.mp hother with rfl | hother
        · exact hwritten.2
        · exact hfits other hother
      · rw [writeFixed, hwritten.1, hfixed]
        rfl
      · simp only [List.length_append, List.countP_cons, hlen, hfirstLen]
        omega

/-- A named argument is written behind its own tag, which takes the place of the tag of a box. -/
lemma readNamedOne_condenses :
    Condenses readNamedOne fun found written => ∀ argument ∈ found, argument.Fits ∧
      ∃ name value, writeText (some argument.name) = .ok name ∧ argument.value.write = .ok value ∧
        written = namedBytes argument name value := by
  have hkind : Condenses readNamedKind fun isProperty written =>
      written = [if isProperty then propertyMark else fieldMark] := by
    refine .afterByte fun kind => ?_
    split
    · rename_i h
      exact .pure (by simp [h])
    · split
      · rename_i h
        exact .pure (by simp [h])
      · exact .throw _
  have hname : Condenses readText fun name written =>
      writeText (some (name.getD "")) = .ok written ∧ (name.getD "").utf8ByteSize ≤ 0x1fffffff := by
    refine readText_condenses.shorten ?_
    rintro name written ⟨hwritten, hfits⟩
    cases name with
    | none =>
      cases hwritten
      exact ⟨[0], ⟨rfl, by decide⟩, Nat.le_refl _⟩
    | some name => exact ⟨written, ⟨hwritten, hfits name rfl⟩, Nat.le_refl _⟩
  have hread : Condenses readNamedOne fun found written => ∀ argument ∈ found, argument.Fits ∧
      ∃ mark tag name value, writeText (some argument.name) = .ok name ∧
        argument.value.write = .ok value ∧ written = mark :: tag :: (name ++ value) := by
    refine hkind.bind fun isProperty first hfirst => ?_
    subst hfirst
    refine .afterByte fun tag => ?_
    split
    · exact .pure (by simp)
    · refine hname.bind fun name named hnamed => ?_
      refine (Argument.readTagged_condenses tag).map fun found written h => ?_
      rintro argument hargument
      obtain ⟨value, hvalue, rfl⟩ := Option.map_eq_some_iff.mp hargument
      have hstored := h value hvalue
      exact ⟨⟨hnamed.2, hstored.2⟩, _, tag, named, written, hnamed.1, hstored.1, rfl⟩
  refine hread.shorten fun found written h => ?_
  cases found with
  | none => exact ⟨[], by simp, Nat.zero_le _⟩
  | some argument =>
    obtain ⟨hfits, mark, tag, name, value, hname, hvalue, rfl⟩ := h argument rfl
    refine ⟨namedBytes argument name value, ?_, Nat.le_refl _⟩
    rintro _ ⟨⟩
    exact ⟨hfits, name, value, hname, hvalue, rfl⟩

lemma readNamed_condenses (count : Nat) :
    Condenses (readNamed count) fun (named, complete) written => complete = true →
      named.length = count ∧ (∀ argument ∈ named, argument.Fits) ∧ writeNamed named = .ok written := by
  induction count with
  | zero => exact .pure fun _ => ⟨rfl, by simp, rfl⟩
  | succ count ih =>
    refine readNamedOne_condenses.bind fun found first hfirst => ?_
    cases found with
    | none => exact .pure (by simp)
    | some argument =>
      refine ih.map ?_
      rintro ⟨named, complete⟩ rest hrest rfl
      obtain ⟨hlen, hfits, hnamed⟩ := hrest rfl
      obtain ⟨hargument, name, value, hname, hvalue, rfl⟩ := hfirst argument rfl
      refine ⟨congrArg (· + 1) hlen, ?_, ?_⟩
      · intro other hother
        rcases List.mem_cons.mp hother with rfl | hother
        · exact hargument
        · exact hfits other hother
      · rw [writeNamed, hname, hvalue, hnamed]
        simp [namedBytes, pure, Except.pure, bind, Except.bind]

/-- Every value begins with the prolog. -/
lemma readBody_eq_ok {m : Module} {params : List SigType} {blob : Bytes} {value : AttributeValue}
    (h : (readBody m params).run blob = .ok (value, rest)) :
    ∃ bytes fixed complete behind, blob = writeLittle 2 prolog ++ bytes ∧
      (readFixed m params).run bytes = .ok ((fixed, complete), behind) ∧
      behindFixed fixed complete behind = .ok (value, rest) := by
  have hrun := h
  unfold readBody at hrun
  rw [StateT.run_bind] at hrun
  obtain ⟨⟨start, bytes⟩, hstart, hrun⟩ := bind_eq_ok hrun
  obtain ⟨hblob, -⟩ := readLittle_eq_ok hstart
  by_cases hprolog : start = prolog
  · subst hprolog
    subst hblob
    rw [run_readBody] at h
    obtain ⟨⟨⟨fixed, complete⟩, behind⟩, hfixed, hbehind⟩ := bind_eq_ok h
    exact ⟨bytes, fixed, complete, behind, rfl, hfixed, hbehind⟩
  · simp only [hprolog, ne_eq, not_false_eq_true, if_true] at hrun
    cases hrun

/-- What stands behind the fixed arguments of a complete value: too few bytes for a number of
named arguments, or that number and the named arguments. -/
lemma behindFixed_eq_ok {fixed : List Argument} {complete : Bool} {behind : Bytes} {value : AttributeValue}
    (h : behindFixed fixed complete behind = .ok (value, rest)) (hcomplete : value.complete = true) :
    complete = true ∧ value.fixed = fixed ∧
      (behind.length < 2 ∧ value.named = [] ∨
        value.named.length ≤ 0xffff ∧ (∀ argument ∈ value.named, argument.Fits) ∧
          ∃ written, writeNamed value.named = .ok written ∧ written.length + 2 ≤ behind.length) := by
  unfold behindFixed at h
  split at h
  · rename_i hstop
    obtain ⟨rfl, -⟩ := Prod.mk.inj (Except.ok.inj h)
    obtain rfl : complete = true := hcomplete
    exact ⟨rfl, rfl, .inl ⟨by simpa using hstop, rfl⟩⟩
  · rename_i hgo
    have hnamed : Condenses (readLittle 2 >>= readNamed) fun (named, complete) written => complete = true →
        named.length ≤ 0xffff ∧ (∀ argument ∈ named, argument.Fits) ∧
          ∃ behind, writeNamed named = .ok behind ∧ behind.length + 2 ≤ written.length := by
      refine (readLittle_condenses 2).bind ?_
      rintro count _ ⟨rfl, hlt⟩
      refine (readNamed_condenses count).shorten fun (named, complete) written hwritten => ?_
      refine ⟨written, fun hcomplete => ?_, Nat.le_refl _⟩
      obtain ⟨rfl, hfits, hwrite⟩ := hwritten hcomplete
      refine ⟨Nat.le_of_lt_succ hlt, hfits, written, hwrite, ?_⟩
      rw [List.length_append, length_writeLittle]
      omega
    have hstarted : complete = true := by
      cases complete with
      | true => rfl
      | false => exact absurd rfl hgo
    cases hrun : (readLittle 2 >>= readNamed).run behind with
    | error cause =>
      rw [hrun] at h
      cases h
    | ok found =>
      obtain ⟨⟨named, ended⟩, left⟩ := found
      rw [hrun] at h
      obtain ⟨rfl, -⟩ := Prod.mk.inj (Except.ok.inj h)
      obtain ⟨taken, written, rfl, hwritten, hlen⟩ := hnamed behind left _ hrun
      obtain ⟨hcount, hfits, bytes, hbytes, hle⟩ := hwritten hcomplete
      refine ⟨hstarted, rfl, .inr ⟨hcount, hfits, bytes, hbytes, ?_⟩⟩
      rw [List.length_append]
      omega

section

variable {m : Module} {params : List SigType} {blob : Bytes} {value : AttributeValue}
  (hblob : blob ≠ []) (h : ofBlob m params blob = .ok value) (hcomplete : value.complete = true)

include hblob h hcomplete

/-- What is known of a complete value that was read from a blob. -/
lemma ofBlob_eq_ok : ∃ taken behind fixed, blob = writeLittle 2 prolog ++ (taken ++ behind) ∧
      (readFixed m params).run (taken ++ behind) = .ok ((value.fixed, true), behind) ∧
      FixedFor m params value.fixed ∧ writeFixed value.fixed = .ok fixed ∧
      fixed.length + params.countP SigType.isObject ≤ taken.length ∧
      (behind.length < 2 ∧ value.named = [] ∨
        value.named.length ≤ 0xffff ∧ (∀ argument ∈ value.named, argument.Fits) ∧
          ∃ written, writeNamed value.named = .ok written ∧ written.length + 2 ≤ behind.length) := by
  rw [ofBlob_of_ne_nil hblob] at h
  cases hrun : (readBody m params).run blob with
  | error cause =>
    rw [hrun] at h
    cases h
  | ok found =>
    obtain ⟨found, rest⟩ := found
    rw [hrun] at h
    obtain rfl : found = value := Except.ok.inj h
    obtain ⟨bytes, fixed, complete, behind, hbytes, hfixed, hbehind⟩ := readBody_eq_ok hrun
    obtain ⟨rfl, rfl, htail⟩ := behindFixed_eq_ok hbehind hcomplete
    obtain ⟨taken, written, rfl, hwritten, hlen⟩ := readFixed_condenses m params bytes behind _ hfixed
    obtain ⟨hfor, fixed, hfixedWritten, hcount⟩ := hwritten rfl
    exact ⟨taken, behind, fixed, hbytes, hfixed, hfor, hfixedWritten, hcount ▸ hlen, htail⟩

/-- A complete value that was read has a written form that holds all of it. -/
lemma fits_of_ofBlob : value.Fits := by
  obtain ⟨taken, behind, fixed, -, -, hfor, -, -, htail⟩ := ofBlob_eq_ok hblob h hcomplete
  rcases htail with ⟨-, hnamed⟩ | ⟨hcount, hnamed, -⟩
  · exact ⟨hcomplete, hfor.fits, by simp [hnamed], by simp [hnamed]⟩
  · exact ⟨hcomplete, hfor.fits, hnamed, hcount⟩

end

end AttributeValue

end TypeAtlas.Metadata
