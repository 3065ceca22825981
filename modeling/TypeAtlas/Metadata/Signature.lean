import TypeAtlas.Metadata.Token

/-!
Signatures: types, methods and properties as they are stored in blobs. Reading skips
modifiers, pinned marks, array bounds and the mark before optional arguments; writing
gives the plain form.
-/

namespace TypeAtlas.Metadata

/-- A type inside a signature. -/
inductive SigType where
  | builtin (type : Builtin)
  | classType (token : Token)
  | valueType (token : Token)
  | inst (generic : Token) (isValue : Bool) (args : List SigType)
  /-- A generic parameter of the enclosing type. -/
  | typeParam (number : Nat)
  /-- A generic parameter of the enclosing method. -/
  | methodParam (number : Nat)
  | vector (element : SigType)
  | array (element : SigType) (rank : Nat)
  | byRef (target : SigType)
  | pointer (target : SigType)
deriving Repr

/-! The first byte of every type that has no keyword. -/

namespace Element

def pointer : UInt8 := 0x0f
def byRef : UInt8 := 0x10
def valueType : UInt8 := 0x11
def classType : UInt8 := 0x12
def typeParam : UInt8 := 0x13
def array : UInt8 := 0x14
def inst : UInt8 := 0x15
def typedRef : UInt8 := 0x16
def functionPointer : UInt8 := 0x1b
def vector : UInt8 := 0x1d
def methodParam : UInt8 := 0x1e
def requiredModifier : UInt8 := 0x1f
def optionalModifier : UInt8 := 0x20
/-- Stands before the arguments a caller may leave out. -/
def sentinel : UInt8 := 0x41
def pinned : UInt8 := 0x45

end Element

namespace SigType

def readInstanceKind : Read Bool := do
  let code ← readByte
  if code = Element.classType then pure false
  else if code = Element.valueType then pure true
  else throw (.instanceOver code)

/-- Array sizes or lower bounds: their number and the numbers themselves. -/
def skipNumbers : Read Unit := do
  let count ← readCompressed
  let _ ← readTimes readCompressed count
  pure ()

/-- One type nested at most `fuel` deep. Every level takes at least one byte, so the
number of bytes is fuel enough. -/
def readNested : Nat → Read SigType
  | 0 => throw .signatureEnded
  | fuel + 1 => do
    let code ← readByte
    match Builtin.ofElementCode? code with
    | some type => pure (.builtin type)
    | none =>
      if code = Element.requiredModifier ∨ code = Element.optionalModifier then
        let _ ← readCompressed
        readNested fuel
      else if code = Element.pinned then
        readNested fuel
      else if code = Element.pointer then
        let target ← readNested fuel
        pure (.pointer target)
      else if code = Element.byRef then
        let target ← readNested fuel
        pure (.byRef target)
      else if code = Element.classType then
        let token ← Token.read
        pure (.classType token)
      else if code = Element.valueType then
        let token ← Token.read
        pure (.valueType token)
      else if code = Element.typeParam then
        let number ← readCompressed
        pure (.typeParam number)
      else if code = Element.methodParam then
        let number ← readCompressed
        pure (.methodParam number)
      else if code = Element.vector then
        let element ← readNested fuel
        pure (.vector element)
      else if code = Element.array then
        let element ← readNested fuel
        let rank ← readCompressed
        skipNumbers
        skipNumbers
        pure (.array element rank)
      else if code = Element.inst then
        let isValue ← readInstanceKind
        let generic ← Token.read
        let count ← readCompressed
        let args ← readTimes (readNested fuel) count
        pure (.inst generic isValue args)
      else if code = Element.typedRef ∨ code = Element.functionPointer then
        throw (.unsupportedElement code)
      else
        throw (.unknownElement code)

def read : Read SigType := fun bytes => readNested bytes.length bytes

mutual

def write : SigType → Except Malformed Bytes
  | .builtin type =>
    match type.elementCode with
    | some code => .ok [code]
    | none => .error (.noElement type)
  | .classType token => do
    let coded ← token.write
    pure (Element.classType :: coded)
  | .valueType token => do
    let coded ← token.write
    pure (Element.valueType :: coded)
  | .inst generic isValue args => do
    let coded ← generic.write
    let count ← writeCompressed args.length
    let written ← writeAll args
    pure (Element.inst :: (if isValue then Element.valueType else Element.classType) ::
      (coded ++ count ++ written))
  | .typeParam number => do
    let coded ← writeCompressed number
    pure (Element.typeParam :: coded)
  | .methodParam number => do
    let coded ← writeCompressed number
    pure (Element.methodParam :: coded)
  | .vector element => do
    let written ← element.write
    pure (Element.vector :: written)
  | .array element rank => do
    let written ← element.write
    let coded ← writeCompressed rank
    pure (Element.array :: (written ++ coded ++ [0, 0]))
  | .byRef target => do
    let written ← target.write
    pure (Element.byRef :: written)
  | .pointer target => do
    let written ← target.write
    pure (Element.pointer :: written)

def writeAll : List SigType → Except Malformed Bytes
  | [] => .ok []
  | type :: types => do
    let first ← type.write
    let rest ← writeAll types
    pure (first ++ rest)

end

/-- The type in a blob; bytes behind it are ignored. -/
def ofBlob (blob : Bytes) : Except Malformed SigType := (read.run blob).map (·.1)

end SigType

/-! The first byte of a signature: its kind in the low half and two flags above. -/

namespace Convention

def kind (convention : UInt8) : UInt8 := convention &&& 0x0f
def property : UInt8 := 0x08
def isGeneric (convention : UInt8) : Bool := convention &&& 0x10 != 0
def hasThis (convention : UInt8) : Bool := convention &&& 0x20 != 0

end Convention

/-- Parameter types, each possibly behind a run of sentinels. -/
def readParams : Nat → Read (List SigType)
  | 0 => pure []
  | n + 1 => do
    modify (·.dropWhile (· == Element.sentinel))
    let type ← SigType.read
    let rest ← readParams n
    pure (type :: rest)

structure MethodSig where
  hasThis : Bool
  generics : Nat
  ret : SigType
  params : List SigType
deriving Repr

namespace MethodSig

def read : Read MethodSig := do
  let convention ← readByte
  if Convention.kind convention = Convention.property then
    throw .propertyForMethod
  let generics ← if Convention.isGeneric convention then readCompressed else pure 0
  let count ← readCompressed
  let ret ← SigType.read
  let params ← readParams count
  pure ⟨Convention.hasThis convention, generics, ret, params⟩

def ofBlob (blob : Bytes) : Except Malformed MethodSig := (read.run blob).map (·.1)

def write (sig : MethodSig) : Except Malformed Bytes := do
  let convention : UInt8 := (if sig.hasThis then 0x20 else 0) + (if sig.generics > 0 then 0x10 else 0)
  let generics ← if sig.generics > 0 then writeCompressed sig.generics else pure []
  let count ← writeCompressed sig.params.length
  let ret ← sig.ret.write
  let params ← SigType.writeAll sig.params
  pure (convention :: (generics ++ count ++ ret ++ params))

end MethodSig

structure PropertySig where
  hasThis : Bool
  type : SigType
  /-- The parameters of an indexer. -/
  params : List SigType
deriving Repr

namespace PropertySig

def read : Read PropertySig := do
  let convention ← readByte
  if Convention.kind convention ≠ Convention.property then
    throw (.propertyStart convention)
  let count ← readCompressed
  let type ← SigType.read
  let params ← readParams count
  pure ⟨Convention.hasThis convention, type, params⟩

def ofBlob (blob : Bytes) : Except Malformed PropertySig := (read.run blob).map (·.1)

def write (sig : PropertySig) : Except Malformed Bytes := do
  let convention : UInt8 := Convention.property + (if sig.hasThis then 0x20 else 0)
  let count ← writeCompressed sig.params.length
  let type ← sig.type.write
  let params ← SigType.writeAll sig.params
  pure (convention :: (count ++ type ++ params))

end PropertySig

end TypeAtlas.Metadata
