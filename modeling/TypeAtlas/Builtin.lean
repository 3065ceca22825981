/-!
The types that have a keyword of their own. Each also has a name at run time and, except
for `decimal`, a one-byte code in signatures.
-/

namespace TypeAtlas

inductive Builtin where
  | bool | byte | sbyte | char | decimal | double | float | int | uint | long | ulong | short
  | ushort | nint | nuint | object | string | void
deriving DecidableEq, Repr

namespace Builtin

def all : List Builtin :=
  [.bool, .byte, .sbyte, .char, .decimal, .double, .float, .int, .uint, .long, .ulong, .short,
    .ushort, .nint, .nuint, .object, .string, .void]

theorem mem_all (b : Builtin) : b ∈ all := by cases b <;> decide

def keyword : Builtin → String
  | bool => "bool"
  | byte => "byte"
  | sbyte => "sbyte"
  | char => "char"
  | decimal => "decimal"
  | double => "double"
  | float => "float"
  | int => "int"
  | uint => "uint"
  | long => "long"
  | ulong => "ulong"
  | short => "short"
  | ushort => "ushort"
  | nint => "nint"
  | nuint => "nuint"
  | object => "object"
  | string => "string"
  | void => "void"

/-- The name at run time, without its namespace. -/
def runtimeName : Builtin → String
  | bool => "Boolean"
  | byte => "Byte"
  | sbyte => "SByte"
  | char => "Char"
  | decimal => "Decimal"
  | double => "Double"
  | float => "Single"
  | int => "Int32"
  | uint => "UInt32"
  | long => "Int64"
  | ulong => "UInt64"
  | short => "Int16"
  | ushort => "UInt16"
  | nint => "IntPtr"
  | nuint => "UIntPtr"
  | object => "Object"
  | string => "String"
  | void => "Void"

/-- All builtin types live in the namespace `System` at run time. -/
def runtimeFullName (b : Builtin) : String := "System." ++ b.runtimeName

/-- The code of the type in a signature. A `decimal` is referenced by name instead. -/
def elementCode : Builtin → Option UInt8
  | void => some 0x01
  | bool => some 0x02
  | char => some 0x03
  | sbyte => some 0x04
  | byte => some 0x05
  | short => some 0x06
  | ushort => some 0x07
  | int => some 0x08
  | uint => some 0x09
  | long => some 0x0a
  | ulong => some 0x0b
  | float => some 0x0c
  | double => some 0x0d
  | string => some 0x0e
  | nint => some 0x18
  | nuint => some 0x19
  | object => some 0x1c
  | decimal => none

def ofKeyword? (word : String) : Option Builtin := all.find? (·.keyword == word)

def ofRuntimeFullName? (name : String) : Option Builtin := all.find? (·.runtimeFullName == name)

def ofElementCode? (code : UInt8) : Option Builtin := all.find? (·.elementCode == some code)

/-- The builtin type that one of some full names stands for. A builtin type has no
generic parameters. -/
def first? (arity : Nat) (names : List String) : Option Builtin :=
  if arity = 0 then names.findSome? ofRuntimeFullName? else none

theorem ofKeyword?_keyword (b : Builtin) : ofKeyword? b.keyword = some b := by
  cases b <;> decide

theorem ofElementCode?_of_elementCode {b : Builtin} {code : UInt8} (h : b.elementCode = some code) :
    ofElementCode? code = some b := by
  cases b <;> simp [elementCode] at h <;> subst h <;> decide

theorem elementCode_of_ofElementCode? {b : Builtin} {code : UInt8}
    (h : ofElementCode? code = some b) : b.elementCode = some code := by
  simpa using List.find?_some h

end Builtin

end TypeAtlas
