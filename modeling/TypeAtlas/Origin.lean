import TypeAtlas.Declaration
import TypeAtlas.Metadata.TypeName

/-!
How declarations come into being: from a handle into source, from a definition in a module,
or from a type as the runtime names it. All are unloaded at first.
-/

namespace TypeAtlas

/-- A module with the place it was found at. -/
structure Library where
  module : Metadata.Module
  location : String

inductive RuntimeType where
  | mk (home : Library) (fullName : String) (args : List RuntimeType) (array : Option ArrayShape)

def Library.find? (library : Library) (fullName : String) : Option Nat :=
  let (ns, name) := Metadata.splitNamespace fullName
  library.module.findTypeDef ns name

/-- The using directives together with those implicit ones that are not among them. -/
def withImplicit (usings : List String) : List String → List String
  | [] => usings
  | implicit :: rest =>
    if usings.contains implicit then withImplicit usings rest
    else withImplicit (usings ++ [implicit]) rest

def Kind.node : Kind → Source.TypeNode
  | .interfaceType => .interfaceNode
  | .classType => .classNode
  | .structType => .structNode
  | .enumType => .enumNode

/-- Whether a node is how a declaration of a kind is written. -/
def Source.TypeNode.matchesKind (words : List String) (kind : Kind) : TypeNode → Bool
  | .recordNode => kind = if words.contains "struct" then .structType else .classType
  | node => node = kind.node

def isInterface (flags : Nat) : Bool := flags.testBit 5

/-- The kind of a definition: interfaces are flagged, the rest shows in the base. -/
def Metadata.Module.kindOf (m : Metadata.Module) (row : Nat) : Except Malformed Kind := do
  let found ← m.typeDef row
  if isInterface found.flags then return .interfaceType
  match found.base with
  | none => return .classType
  | some base =>
    match ← m.typeName base with
    | some ("System", "ValueType") => return .structType
    | some ("System", "Enum") => return .enumType
    | _ => return .classType

/-- The names of the generic parameters of a type or method, in order. -/
def Metadata.Module.genericNames (m : Metadata.Module) (owner : Metadata.GenericOwner) :
    Except Malformed (List String) :=
  (m.genericParamsOf owner).mapM fun row => do
    let found ← m.genericParam row
    m.strings.get found.name

namespace Declaration

/-- A declaration in source, which must be of the expected kind. -/
def ofSource (implicitUsings : List String) (kind : Kind) (ns : String) (usings : List String)
    (handle : Source.Handle) (location : String) : Except Malformed Declaration :=
  match handle.node? with
  | none => .error (.lostDeclaration kind location)
  | some (.ofType tree) =>
    if tree.node.matchesKind tree.words kind then
      .ok { kind, ns, location, handle
            name := tree.name
            arity := tree.typeParams.length
            usings := withImplicit usings implicitUsings
            provenance := .source }
    else .error (.wrongDeclaration tree.node.text location kind)
  | some node => .error (.wrongDeclaration node.kind.text location kind)

def ofPlaced (implicitUsings : List String) (document : Source.Document) (placed : Source.Placed) :
    Except Malformed Declaration :=
  ofSource implicitUsings placed.tree.kind placed.ns placed.usings
    (.ofNode document (.ofType placed.tree)) document.path

/-- The text of a definition without its members. -/
def definitionText (kind : Kind) (name : String) (generics : List String) : String :=
  "public " ++ kind.word ++ " " ++ name ++
    (if generics.isEmpty then "" else "<" ++ Text.joinWith ", " generics ++ ">") ++ " \x7b \x7d"

/-- A definition in a module, which must be of the expected kind if there is one. -/
def ofDefinition (expected : Option Kind) (library : Library) (row : Nat) :
    Except Malformed Declaration := do
  let m := library.module
  let kind ← m.kindOf row
  match expected with
  | some expected =>
    if expected ≠ kind then throw (.wrongDefinition row library.location kind expected)
  | none => pure ()
  let (ns, raw) ← m.typeDefName row
  let (name, _) := Metadata.splitArity raw
  let generics ← m.genericNames (.type row)
  return { kind, ns, name
           location := library.location
           arity := generics.length
           usings := []
           handle := .synthesized (.typeNode kind.node) (definitionText kind name generics)
           provenance := .module m row }

def ofRuntimeType (expected : Option Kind) (library : Library) (fullName : String) :
    Except Fault Declaration :=
  match library.find? fullName with
  | none => .error (.noDefinition fullName library.location)
  | some row => (ofDefinition expected library row).mapError .malformed

end Declaration

end TypeAtlas
