import Mathlib.Data.List.Forall2
import TypeAtlas.Metadata.AttributeValue
import TypeAtlas.Proofs.SignatureRoundTrip

/-!
Values of attributes that are written and read again. Fixed arguments carry no tag and are
read by the types of the constructor, named ones bring their own. Main statement: a complete
value whose fixed arguments are of the types that the constructor's parameters ask for is
written and read back as it was, whatever follows it.
-/

namespace TypeAtlas.Metadata

variable {bytes : Bytes} {params : List SigType} {m : Module} {n value : Nat} {arguments : List Argument}

/-- The number that bytes stand for, the lowest first. -/
def little (bytes : Bytes) : Nat := bytes.foldr (fun byte value => byte.toNat + 256 * value) 0

lemma length_writeLittle (n value : Nat) : (writeLittle n value).length = n := by
  induction n generalizing value with
  | zero => rfl
  | succ n ih => simp [writeLittle, ih]

lemma little_writeLittle (h : value < Nat.pow 256 n) : little (writeLittle n value) = value := by
  induction n generalizing value with
  | zero =>
    have hzero : value = 0 := Nat.lt_one_iff.mp h
    rw [hzero]
    rfl
  | succ n ih =>
    have hrest : value / 256 < Nat.pow 256 n := Nat.div_lt_of_lt_mul (by rwa [Nat.mul_comm])
    change value.toUInt8.toNat + 256 * little (writeLittle n (value / 256)) = value
    rw [ih hrest, toNat_toUInt8]
    omega

lemma readLittle_append (h : bytes.length = n) (rest : Bytes) :
    (readLittle n).run (bytes ++ rest) = .ok (little bytes, rest) := by
  subst h
  have hlen : ¬(bytes ++ rest).length < bytes.length := by
    rw [List.length_append]
    omega
  change readLittle bytes.length (bytes ++ rest) = _
  rw [readLittle, if_neg hlen, List.take_left, List.drop_left, little]

/-- A number that fits into its bytes is read back. -/
lemma Takes.little (h : value < Nat.pow 256 n) : Takes (readLittle n) (writeLittle n value) value := by
  intro rest
  rw [readLittle_append (length_writeLittle n value), little_writeLittle h]

/-- A number that is written does not begin like the mark for no text. -/
lemma writeCompressed_head (h : writeCompressed value = .ok bytes) :
    ∃ first rest, bytes = first :: rest ∧ first ≠ noText := by
  have hne : ∀ n : Nat, n % 0x100 ≠ 0xff → n.toUInt8 ≠ noText := by
    intro n hn heq
    exact hn (by rw [← toNat_toUInt8, heq]; rfl)
  rcases writeCompressed_eq_ok h with ⟨hlt, rfl⟩ | ⟨⟨-, hlt⟩, rfl⟩ | ⟨⟨-, hle⟩, rfl⟩
  · exact ⟨_, _, rfl, hne _ (by omega)⟩
  · exact ⟨_, _, rfl, hne _ (by omega)⟩
  · unfold compressedLimit at hle
    exact ⟨_, _, rfl, hne _ (by omega)⟩

lemma Takes.text {value : Option String} {bytes : Bytes} (h : writeText value = .ok bytes) :
    Takes readText bytes value := by
  cases value with
  | none =>
    cases h
    exact fun rest => rfl
  | some text =>
    obtain ⟨length, hlength, h⟩ := bind_eq_ok h
    cases h
    intro rest
    have hread := Takes.compressed hlength (Text.Utf8.encode text ++ rest)
    obtain ⟨first, behind, rfl, hfirst⟩ := writeCompressed_head hlength
    rw [List.append_assoc]
    change readText (first :: (behind ++ (Text.Utf8.encode text ++ rest))) = _
    rw [readText, if_neg hfirst]
    have hlen : ¬(Text.Utf8.encode text ++ rest).length < (Text.Utf8.encode text).length := by
      rw [List.length_append]
      omega
    have hrun : readCompressed.run (first :: (behind ++ (Text.Utf8.encode text ++ rest))) =
        .ok ((Text.Utf8.encode text).length, Text.Utf8.encode text ++ rest) := hread
    rw [hrun]
    dsimp only
    rw [if_neg hlen, List.take_left, List.drop_left, Text.Utf8.decode?_encode]

namespace Argument

variable {argument : Argument} {type : Builtin} {code : UInt8}

/-- Arguments with a written form that holds all of them. -/
def Fits : Argument → Prop
  | char value => value.toNat ≤ 0xffff
  | text (some value) | typeName (some value) => value.utf8ByteSize ≤ 0x1fffffff
  | _ => True

lemma takes_unbox {tag : UInt8} (h : tag ≠ boxedTag) : Takes (unbox tag) [] tag := by
  intro rest
  change unbox tag rest = _
  cases rest with
  | nil => rw [unbox, if_neg h]
  | cons byte rest => rw [unbox, if_neg h]

lemma charOfUnit_toNat {value : Char} (h : value.toNat ≤ 0xffff) : charOfUnit value.toNat = value := by
  have hscalar : ¬(0xd800 ≤ value.toNat ∧ value.toNat ≤ 0xdfff) := by
    have hvalid : value.toNat < 0xd800 ∨ 0xdfff < value.toNat ∧ value.toNat < 0x110000 := value.valid
    omega
  rw [charOfUnit, if_neg hscalar, Char.ofNat_toNat]

/-- A number of some bytes that stands for an argument. -/
lemma takes_number {number : Nat} (wrap : Nat → Argument) (hlt : number < Nat.pow 256 n)
    (hwrap : wrap number = argument) :
    Takes (do let value ← readLittle n; pure (some (wrap value))) (writeLittle n number) (some argument) := by
  subst hwrap
  exact (Takes.little hlt).map fun value => some (wrap value)

lemma takes_readBuiltin (htype : argument.builtin = some type) (hfits : argument.Fits)
    (h : argument.write = .ok bytes) : Takes (readBuiltin type) bytes (some argument) := by
  cases argument with
  | bool value =>
    cases htype
    cases h
    cases value <;> exact fun _ => rfl
  | char value =>
    cases htype
    cases h
    exact takes_number (fun unit => .char (charOfUnit unit)) (Nat.lt_succ_of_le hfits)
      (by rw [charOfUnit_toNat hfits])
  | int8 value =>
    cases htype
    cases h
    exact takes_number (fun number => .int8 number.toUInt8.toInt8) value.toUInt8.toNat_lt (by simp)
  | uint8 value =>
    cases htype
    cases h
    exact fun _ => rfl
  | int16 value =>
    cases htype
    cases h
    exact takes_number (fun number => .int16 number.toUInt16.toInt16) value.toUInt16.toNat_lt (by simp)
  | uint16 value =>
    cases htype
    cases h
    exact takes_number (fun number => .uint16 number.toUInt16) value.toNat_lt (by simp)
  | int32 value =>
    cases htype
    cases h
    exact takes_number (fun number => .int32 number.toUInt32.toInt32) value.toUInt32.toNat_lt (by simp)
  | uint32 value =>
    cases htype
    cases h
    exact takes_number (fun number => .uint32 number.toUInt32) value.toNat_lt (by simp)
  | int64 value =>
    cases htype
    cases h
    exact takes_number (fun number => .int64 number.toUInt64.toInt64) value.toUInt64.toNat_lt (by simp)
  | uint64 value =>
    cases htype
    cases h
    exact takes_number (fun number => .uint64 number.toUInt64) value.toNat_lt (by simp)
  | single bits =>
    cases htype
    cases h
    exact takes_number (fun number => .single number.toUInt32) bits.toNat_lt (by simp)
  | double bits =>
    cases htype
    cases h
    exact takes_number (fun number => .double number.toUInt64) bits.toNat_lt (by simp)
  | text value =>
    cases htype
    exact (Takes.text h).map fun value => some (Argument.text value)
  | typeName name => cases htype

lemma takes_readTagged_type {name : Option String} (h : writeText name = .ok bytes) :
    Takes (readTagged typeTag) bytes (some (typeName name)) :=
  (takes_unbox (by decide)).bind ((Takes.text h).map fun name => some (typeName name))

/-- The code of a builtin type is a tag like no other. -/
lemma elementCode_ne (h : type.elementCode = some code) : code ≠ boxedTag ∧ code ≠ typeTag := by
  cases type <;> cases h <;> decide

lemma takes_readTagged_builtin {found : Option Argument} (hcode : type.elementCode = some code)
    (h : Takes (readBuiltin type) bytes found) : Takes (readTagged code) bytes found := by
  obtain ⟨hboxed, htype⟩ := elementCode_ne hcode
  refine (takes_unbox hboxed).bind ?_
  rw [if_neg htype, Builtin.ofElementCode?_of_elementCode hcode]
  exact h

lemma takes_readTagged (hfits : argument.Fits) (h : argument.write = .ok bytes) :
    Takes (readTagged argument.tag) bytes (some argument) := by
  cases htype : argument.builtin with
  | none =>
    cases argument with
    | typeName name => exact takes_readTagged_type h
    | _ => cases htype
  | some type =>
    have hcode : type.elementCode = some argument.tag := by
      cases argument <;> cases htype <;> rfl
    exact takes_readTagged_builtin hcode (takes_readBuiltin htype hfits h)

/-- Which arguments a parameter of a constructor takes: those of its builtin type, and types
where it is of the type of types. -/
inductive IsFor (m : Module) : SigType → Argument → Prop
  | builtin {type : Builtin} {argument : Argument} (h : argument.builtin = some type) :
      IsFor m (.builtin type) argument
  | type {token : Token} (name : Option String) (h : m.typeName token = .ok (some ("System", "Type"))) :
      IsFor m (.classType token) (typeName name)

lemma takes_readFixed {param : SigType} (hfor : IsFor m param argument) (hfits : argument.Fits)
    (h : argument.write = .ok bytes) : Takes (readFixed m param) bytes (some argument) := by
  cases hfor with
  | builtin htype =>
    have hread := takes_readTagged hfits h
    cases argument <;> cases htype <;> exact hread
  | type name htoken =>
    have hname : Takes (MonadExcept.ofExcept (m.typeName _) : Read (Option (String × String))) []
      (some ("System", "Type")) := Takes.ofExcept htoken
    exact hname.bind ((Takes.text h).map fun name => some (typeName name))

lemma length_encode (text : String) : (Text.Utf8.encode text).length = text.utf8ByteSize := by
  have hbytes : (Text.Utf8.encode text).toByteArray = text.toByteArray := String.utf8Encode_toList
  rw [← List.size_toByteArray, hbytes]
  rfl

lemma exists_writeText {text : String} (h : text.utf8ByteSize ≤ 0x1fffffff) :
    ∃ bytes, writeText (some text) = .ok bytes := by
  have hlen : (Text.Utf8.encode text).length ≤ compressedLimit := by
    rw [length_encode]
    exact h
  obtain ⟨length, hlength⟩ := exists_writeCompressed.mpr hlen
  exact ⟨length ++ Text.Utf8.encode text, by rw [writeText, hlength]; rfl⟩

lemma exists_write (hfits : argument.Fits) : ∃ bytes, argument.write = .ok bytes := by
  cases argument with
  | text value =>
    cases value with
    | none => exact ⟨_, rfl⟩
    | some value => exact exists_writeText hfits
  | typeName name =>
    cases name with
    | none => exact ⟨_, rfl⟩
    | some name => exact exists_writeText hfits
  | _ => exact ⟨_, rfl⟩

end Argument

namespace AttributeValue

lemma takes_readFixed (hfor : List.Forall₂ (Argument.IsFor m) params arguments)
    (hfits : ∀ argument ∈ arguments, argument.Fits) (h : writeFixed arguments = .ok bytes) :
    Takes (readFixed m params) bytes (arguments, true) := by
  induction hfor generalizing bytes with
  | nil =>
    cases h
    exact .pure _
  | @cons param argument params arguments hargument _ ih =>
    obtain ⟨first, hfirst, h⟩ := bind_eq_ok h
    obtain ⟨rest, hrest, h⟩ := bind_eq_ok h
    cases h
    have hread := Argument.takes_readFixed hargument (hfits argument List.mem_cons_self) hfirst
    have hreadRest := ih (List.forall_mem_cons.mp hfits).2 hrest
    exact hread.bind (hreadRest.map fun others => (argument :: others.1, others.2))

end AttributeValue

/-- Named arguments with a written form that holds all of them. -/
def NamedArgument.Fits (argument : NamedArgument) : Prop :=
  argument.name.utf8ByteSize ≤ 0x1fffffff ∧ argument.value.Fits

namespace AttributeValue

variable {named : List NamedArgument} {value : AttributeValue}

lemma takes_readNamedKind (isProperty : Bool) :
    Takes readNamedKind [if isProperty then propertyMark else fieldMark] isProperty := by
  cases isProperty <;> exact fun _ => rfl

lemma tag_known (argument : Argument) : ¬(argument.tag ≠ Argument.typeTag ∧
    argument.tag ≠ Argument.boxedTag ∧ Builtin.ofElementCode? argument.tag = none) := by
  rintro ⟨htype, -, hcode⟩
  cases argument with
  | typeName name => exact htype rfl
  | _ => cases hcode

def namedBytes (argument : NamedArgument) (name value : Bytes) : Bytes :=
  (if argument.isProperty then propertyMark else fieldMark) :: argument.value.tag :: (name ++ value)

/-- A named argument brings its own tag. -/
lemma takes_readNamedOne {argument : NamedArgument} {name value : Bytes} (hfits : argument.value.Fits)
    (hname : writeText (some argument.name) = .ok name) (hvalue : argument.value.write = .ok value) :
    Takes readNamedOne (namedBytes argument name value) (some argument) := by
  refine (takes_readNamedKind argument.isProperty).bind (.afterByte ?_)
  rw [if_neg (tag_known argument.value)]
  refine (Takes.text hname).bind ?_
  exact (Argument.takes_readTagged hfits hvalue).map fun found =>
    found.map fun value => (⟨argument.isProperty, argument.name, value⟩ : NamedArgument)

lemma takes_readNamed (hfits : ∀ argument ∈ named, argument.Fits) (h : writeNamed named = .ok bytes) :
    Takes (readNamed named.length) bytes (named, true) := by
  induction named generalizing bytes with
  | nil =>
    cases h
    exact .pure _
  | cons argument named ih =>
    obtain ⟨name, hname, h⟩ := bind_eq_ok h
    obtain ⟨value, hvalue, h⟩ := bind_eq_ok h
    obtain ⟨rest, hrest, h⟩ := bind_eq_ok h
    cases h
    have hread := takes_readNamedOne (hfits argument List.mem_cons_self).2 hname hvalue
    have hreadRest := ih (List.forall_mem_cons.mp hfits).2 hrest
    exact hread.bind (hreadRest.map fun others => (argument :: others.1, others.2))

lemma exists_writeFixed (hfits : ∀ argument ∈ arguments, argument.Fits) :
    ∃ bytes, writeFixed arguments = .ok bytes := by
  induction arguments with
  | nil => exact ⟨[], rfl⟩
  | cons argument arguments ih =>
    obtain ⟨first, hfirst⟩ := Argument.exists_write (hfits argument List.mem_cons_self)
    obtain ⟨rest, hrest⟩ := ih (List.forall_mem_cons.mp hfits).2
    exact ⟨first ++ rest, by rw [writeFixed, hfirst, hrest]; rfl⟩

lemma exists_writeNamed (hfits : ∀ argument ∈ named, argument.Fits) : ∃ bytes, writeNamed named = .ok bytes := by
  induction named with
  | nil => exact ⟨[], rfl⟩
  | cons argument named ih =>
    have hargument := hfits argument List.mem_cons_self
    obtain ⟨name, hname⟩ := Argument.exists_writeText hargument.1
    obtain ⟨value, hvalue⟩ := Argument.exists_write hargument.2
    obtain ⟨rest, hrest⟩ := ih (List.forall_mem_cons.mp hfits).2
    exact ⟨_, by rw [writeNamed, hname, hvalue, hrest]; rfl⟩

/-- Values all of whose parts have a written form that holds all of them. The number of named
arguments takes two bytes. -/
structure Fits (value : AttributeValue) : Prop where
  complete : value.complete = true
  fixed : ∀ argument ∈ value.fixed, argument.Fits
  named : ∀ argument ∈ value.named, argument.Fits
  count : value.named.length ≤ 0xffff

lemma exists_write (hfits : value.Fits) :
    ∃ fixed named, writeFixed value.fixed = .ok fixed ∧ writeNamed value.named = .ok named ∧
      value.write = .ok (writeLittle 2 prolog ++ fixed ++ writeLittle 2 value.named.length ++ named) := by
  obtain ⟨fixed, hfixed⟩ := exists_writeFixed hfits.fixed
  obtain ⟨named, hnamed⟩ := exists_writeNamed hfits.named
  exact ⟨fixed, named, hfixed, hnamed, by rw [write, hfixed, hnamed]; rfl⟩

def behindFixed (fixed : List Argument) (complete : Bool) (behind : Bytes) :
    Except Malformed (AttributeValue × Bytes) :=
  if !complete || behind.length < 2 then .ok (⟨fixed, [], complete⟩, behind)
  else ((readLittle 2 >>= readNamed).run behind).map fun ((named, complete), rest) =>
    (⟨fixed, named, complete⟩, rest)

/-- The fixed arguments and all that follows them. -/
lemma run_readBody_prolog (m : Module) (params : List SigType) (bytes : Bytes) :
    (readBody m params).run (writeLittle 2 prolog ++ bytes) = ((do
      let (fixed, complete) ← readFixed m params
      let rest ← get
      if !complete || rest.length < 2 then
        pure ⟨fixed, [], complete⟩
      else
        let count ← readLittle 2
        let (named, complete) ← readNamed count
        pure ⟨fixed, named, complete⟩) : Read AttributeValue).run bytes := by
  have hprolog : Takes (readLittle 2) (writeLittle 2 prolog) prolog := .little (by decide)
  unfold readBody
  rw [StateT.run_bind, hprolog]
  rfl

lemma run_behindFixed (fixed : List Argument) (complete : Bool) (behind : Bytes) :
    StateT.run (if !complete || behind.length < 2 then pure ⟨fixed, [], complete⟩ else do
      let count ← readLittle 2
      let (named, complete) ← readNamed count
      pure ⟨fixed, named, complete⟩ : Read AttributeValue) behind = behindFixed fixed complete behind := by
  unfold behindFixed
  split
  · rfl
  · simp only [StateT.run_bind]
    cases StateT.run (readLittle 2) behind with
    | error cause => rfl
    | ok counted =>
      change StateT.run (readNamed counted.1) counted.2 >>= _ =
        (StateT.run (readNamed counted.1) counted.2).map _
      cases StateT.run (readNamed counted.1) counted.2 <;> rfl

lemma run_readBody (m : Module) (params : List SigType) (bytes : Bytes) :
    (readBody m params).run (writeLittle 2 prolog ++ bytes) =
      (readFixed m params).run bytes >>= fun ((fixed, complete), behind) => behindFixed fixed complete behind := by
  rw [run_readBody_prolog, StateT.run_bind]
  congr 1
  funext found
  obtain ⟨⟨fixed, complete⟩, behind⟩ := found
  exact run_behindFixed fixed complete behind

lemma ofBlob_of_ne_nil {blob : Bytes} (h : blob ≠ []) :
    ofBlob m params blob = ((readBody m params).run blob).map (·.1) := by
  rw [ofBlob, if_neg]
  simpa using h

/-- What was written is read back whatever follows it, where the fixed arguments are for the
parameters. -/
lemma ofBlob_write (hfits : value.Fits)
    (hfor : List.Forall₂ (Argument.IsFor m) params value.fixed) (h : value.write = .ok bytes) (rest : Bytes) :
    ofBlob m params (bytes ++ rest) = .ok value := by
  obtain ⟨fixed, named, hfixed, hnamed, hwrite⟩ := exists_write hfits
  cases hwrite.symm.trans h
  have hcount : Takes (readLittle 2) (writeLittle 2 value.named.length) value.named.length :=
    .little (Nat.lt_succ_of_le hfits.count)
  have hread := (hcount.bind (f := readNamed) (takes_readNamed hfits.named hnamed)) rest
  have hbehind : behindFixed value.fixed true (writeLittle 2 value.named.length ++ named ++ rest) =
      .ok (value, rest) := by
    have hlen : ¬(!true || decide ((writeLittle 2 value.named.length ++ named ++ rest).length < 2)) = true := by
      simp only [List.length_append, length_writeLittle, Bool.not_true, Bool.false_or, decide_eq_true_eq]
      omega
    rw [behindFixed, if_neg hlen, hread, ← hfits.complete]
    rfl
  have hblob : writeLittle 2 prolog ++ fixed ++ writeLittle 2 value.named.length ++ named ++ rest =
      writeLittle 2 prolog ++ (fixed ++ (writeLittle 2 value.named.length ++ named ++ rest)) := by
    simp only [List.append_assoc]
  rw [hblob, ofBlob_of_ne_nil (by simp [writeLittle]), run_readBody, takes_readFixed hfor hfits.fixed hfixed]
  change (behindFixed value.fixed true (writeLittle 2 value.named.length ++ named ++ rest)).map (·.1) = _
  rw [hbehind]
  rfl

/-- A complete value is written and read back as it was, whatever follows it, where its fixed
arguments are for the parameters of the constructor. -/
theorem written_value_read_back (m : Module) (constructor : MethodSig) (value : AttributeValue)
    (hfits : value.Fits) (hfor : List.Forall₂ (Argument.IsFor m) constructor.params value.fixed) :
    ∃ bytes, value.write = .ok bytes ∧
      ∀ rest, ofBlob m constructor.params (bytes ++ rest) = .ok value := by
  obtain ⟨fixed, named, -, -, hwrite⟩ := exists_write hfits
  exact ⟨_, hwrite, ofBlob_write hfits hfor hwrite⟩

/-- A module that refers to the type of types. -/
def typeUser : Module where
  strings := ⟨0 :: Text.Utf8.encode "System" ++ 0 :: Text.Utf8.encode "Type" ++ [0], []⟩
  typeRefs := #[⟨.ownModule, 8, 1⟩]

lemma typeName_typeUser : typeUser.typeName (.reference 1) = .ok (some ("System", "Type")) := by
  with_unfolding_all rfl

/-- A constructor that takes a text, a character, a number and a type. -/
def labelConstructor : MethodSig :=
  ⟨true, 0, .builtin .void,
    [.builtin .string, .builtin .char, .builtin .double, .classType (.reference 1)]⟩

/-- A value with an absent text, a number that is none, a negative property and an empty name. -/
def label : AttributeValue where
  fixed := [.text none, .char '€', .double 0x7ff8000000000001, .typeName (some "Shop.Item, Shop")]
  named := [⟨true, "Größe", .int32 (-3)⟩, ⟨false, "", .typeName none⟩]

lemma fits_label : label.Fits where
  complete := rfl
  fixed := by
    intro argument hargument
    simp only [label, List.mem_cons, List.not_mem_nil, or_false] at hargument
    rcases hargument with rfl | rfl | rfl | rfl
    · trivial
    · change '€'.toNat ≤ 0xffff
      decide
    · trivial
    · change "Shop.Item, Shop".utf8ByteSize ≤ 0x1fffffff
      decide
  named := by
    intro argument hargument
    simp only [label, List.mem_cons, List.not_mem_nil, or_false] at hargument
    rcases hargument with rfl | rfl
    · exact ⟨by decide, trivial⟩
    · exact ⟨by decide, trivial⟩
  count := by decide

theorem written_value_read_back_label :
    label.Fits ∧ List.Forall₂ (Argument.IsFor typeUser) labelConstructor.params label.fixed ∧
      ∃ bytes, label.write = .ok bytes ∧
        ∀ rest, ofBlob typeUser labelConstructor.params (bytes ++ rest) = .ok label := by
  have hfor : List.Forall₂ (Argument.IsFor typeUser) labelConstructor.params label.fixed :=
    .cons (.builtin rfl) (.cons (.builtin rfl) (.cons (.builtin rfl) (.cons (.type _ typeName_typeUser) .nil)))
  exact ⟨fits_label, hfor, written_value_read_back typeUser labelConstructor label fits_label hfor⟩

end AttributeValue

end TypeAtlas.Metadata
