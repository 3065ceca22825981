import TypeAtlas.Member
import TypeAtlas.Metadata.Module
import TypeAtlas.SideData

/-!
A declared type. It is registered with its header alone; loading it adds generic
parameters, bases, members and attributes.
-/

namespace TypeAtlas

/-- Where the shape of a declaration is taken from. -/
inductive Provenance where
  | source
  | module (module : Metadata.Module) (row : Nat)

/-- How one declaration refers to another. -/
inductive EdgeKind where
  | inherits | propertyType | returnType | parameter | genericArgument | constraint | attributed
deriving DecidableEq, Repr

def EdgeKind.text : EdgeKind → String
  | .inherits => "extends"
  | .propertyType => "property_type"
  | .returnType => "return_type"
  | .parameter => "parameter"
  | .genericArgument => "generic_argument"
  | .constraint => "constraint"
  | .attributed => "attribute"

/-- What loading finds out. -/
structure Shape where
  generics : List GenericParam := []
  bases : List Use := []
  members : List Member := []
  attributes : List Attribute := []

namespace Shape

/-- Parameters that nothing constrains yet. -/
def withParams (shape : Shape) (names : List String) : Shape :=
  { shape with generics := names.map ({ name := · }) }

/-- Put each constraint on the first parameter of its name. -/
def constrain (shape : Shape) (constraints : List (String × Use)) : Shape :=
  let constrained := constraints.foldl
    (fun params (name, use) => GenericParam.constrain name use params) shape.generics
  { shape with generics := constrained }

def addBase (shape : Shape) (use : Use) : Shape := { shape with bases := shape.bases ++ [use] }

def addMember (shape : Shape) (member : Member) : Shape :=
  { shape with members := shape.members ++ [member] }

def clear (shape : Shape) : Shape :=
  { shape with generics := [], bases := [], members := [], attributes := [] }

end Shape

structure Declaration where
  kind : Kind
  ns : String
  name : String
  location : String
  /-- The number of generic parameters, known before loading. -/
  arity : Nat
  usings : List String
  handle : Source.Handle
  provenance : Provenance
  data : SideData := {}
  loaded : Bool := false
  shape : Shape := {}

namespace Declaration

def fullName (d : Declaration) : String := qualify d.ns d.name

def properties (d : Declaration) : List Property := d.shape.members.filterMap Member.property?

def methods (d : Declaration) : List Method := d.shape.members.filterMap Member.method?

/-- The declaration in one line. -/
def text (d : Declaration) : String :=
  d.kind.word ++ " " ++ d.fullName ++ (if d.arity > 0 then "`" ++ toString d.arity else "")

def hasAttribute (d : Declaration) (name : String) : Bool :=
  d.shape.attributes.any (·.name == name)

end Declaration

/-- The references of one use: its own by the kind of the place, those inside it as generic
arguments. -/
def Use.references (kind : EdgeKind) (use : Use) : List (EdgeKind × DeclId) :=
  match use.targets with
  | [] => []
  | first :: rest => (kind, first) :: rest.map (.genericArgument, ·)

def GenericParam.references (param : GenericParam) : List (EdgeKind × DeclId) :=
  param.constraints.flatMap (Use.references .constraint)

def Attribute.references (a : Attribute) : List (EdgeKind × DeclId) := a.use.references .attributed

def Member.references : Member → List (EdgeKind × DeclId)
  | .property p => p.type.references .propertyType ++ p.attributes.flatMap Attribute.references
  | .method m =>
    m.returns.references .returnType ++ m.params.flatMap (·.type.references .parameter) ++
      m.generics.flatMap GenericParam.references ++ m.attributes.flatMap Attribute.references

/-- Everything a shape refers to, in the order it is written. -/
def Shape.references (shape : Shape) : List (EdgeKind × DeclId) :=
  shape.generics.flatMap GenericParam.references ++ shape.bases.flatMap (Use.references .inherits) ++
    shape.members.flatMap Member.references ++ shape.attributes.flatMap Attribute.references

end TypeAtlas
