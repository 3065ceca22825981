import TypeAtlas.Builtin
import TypeAtlas.Kind
import TypeAtlas.Text.Hex

/-!
Everything that can go wrong, by cause. The wording of each cause is one function, so
that the rest of the library decides on causes and never on texts.
-/

namespace TypeAtlas

/-- The tables of a module whose rows are looked up by number. -/
inductive TableName where
  | typeDef | typeRef | typeSpec | assemblyRef | methodDef | param | memberRef | property
  | genericParam
deriving DecidableEq, Repr

def TableName.text : TableName → String
  | typeDef => "TypeDef"
  | typeRef => "TypeRef"
  | typeSpec => "TypeSpec"
  | assemblyRef => "AssemblyRef"
  | methodDef => "MethodDef"
  | param => "Param"
  | memberRef => "MemberRef"
  | property => "Property"
  | genericParam => "GenericParam"

/-- Input that contradicts what it is supposed to be. -/
inductive Malformed where
  | signatureEnded
  | leadByte (byte : UInt8)
  | tooLarge (value : Nat)
  | tokenTag (coded : Nat)
  | instanceOver (code : UInt8)
  | unsupportedElement (code : UInt8)
  | unknownElement (code : UInt8)
  | noElement (type : Builtin)
  | propertyForMethod
  | propertyStart (byte : UInt8)
  | stringOutside (offset : Nat)
  | stringUnterminated (offset : Nat)
  | stringEncoding (offset : Nat)
  | blobOutside (offset : Nat)
  | blobOverrun (offset : Nat)
  | prolog (value : Nat)
  | valueEnded
  | valueEncoding
  | namedKind (byte : UInt8)
  | absentRow (table : TableName) (row : Nat)
  | absentBase (row : Nat)
  | noOpenType
  | notAType (text : String)
  | unsupportedType (node path text : String)
  | untypedParameter (path text : String)
  | wrongDeclaration (node location : String) (kind : Kind)
  | lostDeclaration (kind : Kind) (location : String)
  | lostSyntax (requester location : String)
  | wrongDefinition (row : Nat) (location : String) (actual expected : Kind)
  | parameterRange (number : Nat) (requester location : String)
deriving DecidableEq, Repr

def Malformed.text : Malformed → String
  | signatureEnded => "signature ended unexpectedly"
  | leadByte byte => "invalid compressed integer lead byte " ++ Text.hex 2 byte.toNat
  | tooLarge value => toString value ++ " is too large for a compressed integer"
  | tokenTag coded => "invalid type token tag in " ++ Text.hex 1 coded
  | instanceOver code => "generic instance over element type " ++ Text.hex 2 code.toNat
  | unsupportedElement code => "unsupported element type " ++ Text.hex 2 code.toNat
  | unknownElement code => "unknown element type " ++ Text.hex 2 code.toNat
  | noElement type =>
    "`" ++ type.keyword ++ "` has no element type; reference " ++ type.runtimeFullName ++ " instead"
  | propertyForMethod => "expected a method signature, found a property signature"
  | propertyStart byte => "property signature starts with " ++ Text.hex 2 byte.toNat
  | stringOutside offset => "string offset " ++ toString offset ++ " outside heap"
  | stringUnterminated offset => "unterminated string at " ++ toString offset
  | stringEncoding offset => "invalid UTF-8 string at " ++ toString offset
  | blobOutside offset => "blob offset " ++ toString offset ++ " outside heap"
  | blobOverrun offset => "blob at " ++ toString offset ++ " overruns heap"
  | prolog value => "attribute value prolog is " ++ Text.hex 4 value
  | valueEnded => "attribute value ended unexpectedly"
  | valueEncoding => "attribute string is not UTF-8"
  | namedKind byte => "named argument kind " ++ Text.hex 2 byte.toNat
  | absentRow table row => table.text ++ " row " ++ toString row ++ " is absent from its table"
  | absentBase row => "TypeDef[" ++ toString row ++ "] is absent from its table"
  | noOpenType => "members need a type; call define_type first"
  | notAType text => "`" ++ text ++ "` is not a type"
  | unsupportedType node path text =>
    "unsupported type syntax `" ++ node ++ "` in " ++ path ++ ": `" ++ text ++ "`"
  | untypedParameter path text => "parameter without `type` in " ++ path ++ ": `" ++ text ++ "`"
  | wrongDeclaration node location kind =>
    "`" ++ node ++ "` in " ++ location ++ " is not a " ++ kind.word ++ " declaration"
  | lostDeclaration kind location =>
    "syntax node of a " ++ kind.word ++ " in " ++ location ++ " cannot be located"
  | lostSyntax requester location =>
    "syntax of " ++ requester ++ " cannot be located in " ++ location
  | wrongDefinition row location actual expected =>
    "TypeDef[" ++ toString row ++ "] in " ++ location ++ " is a " ++ actual.word ++ ", not a " ++
      expected.word
  | parameterRange number requester location =>
    "generic parameter " ++ toString number ++ " is out of range in " ++ requester ++ " (" ++
      location ++ ")"

inductive Fault where
  /-- A module has no definition of this name. -/
  | noDefinition (fullName location : String)
  | malformed (cause : Malformed)
  /-- Nothing answers to the reference as it was written. -/
  | unresolved (reference requester location : String)
  /-- A slot of side data was written twice. -/
  | alreadyStored (slot declaration : String)
  /-- The configuration is not what it should be. -/
  | config
  /-- A file cannot be read. -/
  | unreadable
  /-- A chain of rows leads back to itself, so following it has no end. -/
  | endless
deriving DecidableEq, Repr

def Fault.message : Fault → String
  | noDefinition fullName location =>
    "not found: no type definition for `" ++ fullName ++ "` in " ++ location
  | malformed cause => "malformed input: " ++ cause.text
  | unresolved reference requester location =>
    "unresolved reference `" ++ reference ++ "` requested by " ++ requester ++ " (" ++ location ++
      ")"
  | alreadyStored slot declaration =>
    "data integrity: `" ++ slot ++ "` is already stored on " ++ declaration
  | config => "invalid configuration"
  | unreadable => "unreadable file"
  | endless => "endless chain of rows"

end TypeAtlas
