import TypeAtlas.Decimal.Shortest
import TypeAtlas.Metadata.Module
import TypeAtlas.Metadata.Signature
import TypeAtlas.Metadata.TypeName

/-!
Values of attributes. The constructor's signature gives the types of the fixed
arguments; a named argument carries its own. Reading stops at an argument whose type
cannot be read and marks the value incomplete.
-/

namespace TypeAtlas.Metadata

/-- One argument. Floating-point numbers are kept as their bits. -/
inductive Argument where
  | bool (value : Bool)
  | char (value : Char)
  | int8 (value : Int8)
  | uint8 (value : UInt8)
  | int16 (value : Int16)
  | uint16 (value : UInt16)
  | int32 (value : Int32)
  | uint32 (value : UInt32)
  | int64 (value : Int64)
  | uint64 (value : UInt64)
  | single (bits : UInt32)
  | double (bits : UInt64)
  | text (value : Option String)
  /-- A type, by its serialized name. -/
  | typeName (name : Option String)
deriving DecidableEq

structure NamedArgument where
  isProperty : Bool
  name : String
  value : Argument
deriving DecidableEq

structure AttributeValue where
  fixed : List Argument := []
  named : List NamedArgument := []
  /-- Whether reading went to the end. -/
  complete : Bool := true
deriving DecidableEq

def readLittle : Nat → Read Nat
  | n, bytes =>
    if bytes.length < n then .error .valueEnded
    else .ok ((bytes.take n).foldr (fun byte value => byte.toNat + 256 * value) 0, bytes.drop n)

def writeLittle : Nat → Nat → Bytes
  | 0, _ => []
  | n + 1, value => value.toUInt8 :: writeLittle n (value / 256)

/-- Stands for an absent text. -/
def noText : UInt8 := 0xff

/-- A text behind its length, or the mark for none. -/
def readText : Read (Option String)
  | [] => .error .signatureEnded
  | first :: rest =>
    if first = noText then .ok (none, rest)
    else match readCompressed.run (first :: rest) with
      | .error cause => .error cause
      | .ok (length, bytes) =>
        if bytes.length < length then .error .valueEnded
        else match Text.Utf8.decode? (bytes.take length) with
          | some text => .ok (some text, bytes.drop length)
          | none => .error .valueEncoding

def writeText : Option String → Except Malformed Bytes
  | none => .ok [noText]
  | some text => do
    let bytes := Text.Utf8.encode text
    let length ← writeCompressed bytes.length
    pure (length ++ bytes)

namespace Argument

def typeTag : UInt8 := 0x50

/-- The tag of an argument whose own tag follows. -/
def boxedTag : UInt8 := 0x51

/-- The innermost tag: a boxed argument is tagged again. -/
def unbox (tag : UInt8) : Read UInt8
  | [] => if tag = boxedTag then .error .signatureEnded else .ok (tag, [])
  | byte :: rest => if tag = boxedTag then unbox byte rest else .ok (tag, byte :: rest)

/-- A code unit as a character; half of a pair has none and reads as the replacement. -/
def charOfUnit (unit : Nat) : Char :=
  if 0xd800 ≤ unit ∧ unit ≤ 0xdfff then Char.ofNat 0xfffd else Char.ofNat unit

/-- An argument of a builtin type, `none` where no value can be written of it. -/
def readBuiltin : Builtin → Read (Option Argument)
  | .bool => do
    let byte ← readByte
    pure (some (.bool (byte != 0)))
  | .char => do
    let unit ← readLittle 2
    pure (some (.char (charOfUnit unit)))
  | .sbyte => do
    let value ← readLittle 1
    pure (some (.int8 value.toUInt8.toInt8))
  | .byte => do
    let byte ← readByte
    pure (some (.uint8 byte))
  | .short => do
    let value ← readLittle 2
    pure (some (.int16 value.toUInt16.toInt16))
  | .ushort => do
    let value ← readLittle 2
    pure (some (.uint16 value.toUInt16))
  | .int => do
    let value ← readLittle 4
    pure (some (.int32 value.toUInt32.toInt32))
  | .uint => do
    let value ← readLittle 4
    pure (some (.uint32 value.toUInt32))
  | .long => do
    let value ← readLittle 8
    pure (some (.int64 value.toUInt64.toInt64))
  | .ulong => do
    let value ← readLittle 8
    pure (some (.uint64 value.toUInt64))
  | .float => do
    let value ← readLittle 4
    pure (some (.single value.toUInt32))
  | .double => do
    let value ← readLittle 8
    pure (some (.double value.toUInt64))
  | .string => do
    let text ← readText
    pure (some (.text text))
  | .decimal | .nint | .nuint | .object | .void => pure none

/-- An argument whose type is given by a tag. -/
def readTagged (tag : UInt8) : Read (Option Argument) := do
  let tag ← unbox tag
  if tag = typeTag then
    let name ← readText
    pure (some (.typeName name))
  else
    match Builtin.ofElementCode? tag with
    | some type => readBuiltin type
    | none => pure none

/-- An argument whose type is a constructor's parameter. An argument for `object` brings
its tag along. -/
def readFixed (m : Module) : SigType → Read (Option Argument)
  | .builtin .object => do
    let tag ← readByte
    readTagged tag
  | .builtin type =>
    match type.elementCode with
    | some tag => readTagged tag
    | none => pure none
  | .classType token => do
    let name ← MonadExcept.ofExcept (m.typeName token)
    if name = some ("System", "Type") then
      let name ← readText
      pure (some (.typeName name))
    else
      pure none
  | _ => pure none

def builtin : Argument → Option Builtin
  | bool _ => some .bool
  | char _ => some .char
  | int8 _ => some .sbyte
  | uint8 _ => some .byte
  | int16 _ => some .short
  | uint16 _ => some .ushort
  | int32 _ => some .int
  | uint32 _ => some .uint
  | int64 _ => some .long
  | uint64 _ => some .ulong
  | single _ => some .float
  | double _ => some .double
  | text _ => some .string
  | typeName _ => none

def tag (argument : Argument) : UInt8 :=
  match argument.builtin with
  | some type => type.elementCode.getD 0
  | none => typeTag

/-- The bytes of an argument without its tag. A character keeps its low sixteen bits. -/
def write : Argument → Except Malformed Bytes
  | bool value => .ok [if value then 1 else 0]
  | char value => .ok (writeLittle 2 value.toNat)
  | int8 value => .ok (writeLittle 1 value.toUInt8.toNat)
  | uint8 value => .ok [value]
  | int16 value => .ok (writeLittle 2 value.toUInt16.toNat)
  | uint16 value => .ok (writeLittle 2 value.toNat)
  | int32 value => .ok (writeLittle 4 value.toUInt32.toNat)
  | uint32 value => .ok (writeLittle 4 value.toNat)
  | int64 value => .ok (writeLittle 8 value.toUInt64.toNat)
  | uint64 value => .ok (writeLittle 8 value.toNat)
  | single bits => .ok (writeLittle 4 bits.toNat)
  | double bits => .ok (writeLittle 8 bits.toNat)
  | text value => writeText value
  | typeName name => writeText name

/-- The argument as it is written in source. -/
def render : Argument → String
  | bool value => if value then "true" else "false"
  | char value => "'" ++ String.ofList (Text.literalChar value) ++ "'"
  | int8 value => toString value.toInt
  | uint8 value => toString value.toNat
  | int16 value => toString value.toInt
  | uint16 value => toString value.toNat
  | int32 value => toString value.toInt
  | uint32 value => toString value.toNat ++ "u"
  | int64 value => toString value.toInt ++ "L"
  | uint64 value => toString value.toNat ++ "UL"
  | single bits => (Decimal.single.read bits.toNat).text ++ "f"
  | double bits => (Decimal.double.read bits.toNat).text ++ "d"
  | text (some value) => "\"" ++ Text.literalText value ++ "\""
  | typeName (some name) => "typeof(" ++ TypeName.written name ++ ")"
  | text none | typeName none => "null"

end Argument

namespace AttributeValue

/-- The first two bytes of every value. -/
def prolog : Nat := 1

def fieldMark : UInt8 := 0x53

def propertyMark : UInt8 := 0x54

/-- Fixed arguments up to the first that cannot be read, and whether there was none. -/
def readFixed (m : Module) : List SigType → Read (List Argument × Bool)
  | [] => pure ([], true)
  | param :: params => do
    match ← Argument.readFixed m param with
    | none => pure ([], false)
    | some argument =>
      let (rest, complete) ← readFixed m params
      pure (argument :: rest, complete)

/-- Whether a named argument belongs to a property rather than a field. -/
def readNamedKind : Read Bool := do
  let kind ← readByte
  if kind = fieldMark then pure false
  else if kind = propertyMark then pure true
  else throw (.namedKind kind)

/-- One named argument; a tag of no known type is met before the name. -/
def readNamedOne : Read (Option NamedArgument) := do
  let isProperty ← readNamedKind
  let tag ← readByte
  if tag ≠ Argument.typeTag ∧ tag ≠ Argument.boxedTag ∧ Builtin.ofElementCode? tag = none then
    pure none
  else
    let name ← readText
    let argument ← Argument.readTagged tag
    pure (argument.map fun value => ⟨isProperty, name.getD "", value⟩)

/-- Named arguments up to the first that cannot be read, and whether there was none. -/
def readNamed : Nat → Read (List NamedArgument × Bool)
  | 0 => pure ([], true)
  | n + 1 => do
    match ← readNamedOne with
    | none => pure ([], false)
    | some argument =>
      let (rest, complete) ← readNamed n
      pure (argument :: rest, complete)

/-- A value behind its prolog. The named arguments may be left out altogether. -/
def readBody (m : Module) (params : List SigType) : Read AttributeValue := do
  let start ← readLittle 2
  if start ≠ prolog then
    throw (.prolog start)
  let (fixed, complete) ← readFixed m params
  let rest ← get
  if !complete || rest.length < 2 then
    pure ⟨fixed, [], complete⟩
  else
    let count ← readLittle 2
    let (named, complete) ← readNamed count
    pure ⟨fixed, named, complete⟩

/-- The value in a blob, for a constructor with these parameters. An empty blob is a
value without arguments. -/
def ofBlob (m : Module) (params : List SigType) (blob : Bytes) : Except Malformed AttributeValue :=
  if blob.isEmpty then .ok {} else ((readBody m params).run blob).map (·.1)

def writeFixed : List Argument → Except Malformed Bytes
  | [] => .ok []
  | argument :: rest => do
    let first ← argument.write
    let others ← writeFixed rest
    pure (first ++ others)

def writeNamed : List NamedArgument → Except Malformed Bytes
  | [] => .ok []
  | argument :: rest => do
    let name ← writeText (some argument.name)
    let value ← argument.value.write
    let others ← writeNamed rest
    let mark := if argument.isProperty then propertyMark else fieldMark
    pure (mark :: argument.value.tag :: (name ++ value ++ others))

def write (value : AttributeValue) : Except Malformed Bytes := do
  let fixed ← writeFixed value.fixed
  let named ← writeNamed value.named
  pure (writeLittle 2 prolog ++ fixed ++ writeLittle 2 value.named.length ++ named)

def isEmpty (value : AttributeValue) : Bool := value.fixed.isEmpty && value.named.isEmpty

/-- The argument list in parentheses as it is written in source; nothing when empty. -/
def render (value : AttributeValue) : String :=
  if value.isEmpty then ""
  else
    "(" ++ Text.joinWith ", " (value.fixed.map Argument.render ++
      value.named.map fun argument => argument.name ++ " = " ++ argument.value.render) ++ ")"

end AttributeValue

end TypeAtlas.Metadata
