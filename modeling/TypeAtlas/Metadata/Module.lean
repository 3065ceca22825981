import TypeAtlas.Metadata.Heap
import TypeAtlas.Metadata.Token
import TypeAtlas.Text.Quoted

/-!
A compiled module: its heaps and tables. Rows count from one. A row that owns a list
names its first member; the list runs to where the list of the next row begins.
-/

namespace TypeAtlas.Metadata

inductive RefScope where
  | ownModule
  | assembly (row : Nat)
  /-- Nested in another referenced type. -/
  | outer (row : Nat)
deriving DecidableEq, Repr

/-- What an attribute stands on. -/
inductive AttributeParent where
  | type (row : Nat)
  | method (row : Nat)
  | param (row : Nat)
  | property (row : Nat)
deriving DecidableEq, Repr

inductive AttributeConstructor where
  | method (row : Nat)
  | member (row : Nat)
deriving DecidableEq, Repr

/-- What a generic parameter belongs to. -/
inductive GenericOwner where
  | type (row : Nat)
  | method (row : Nat)
deriving DecidableEq, Repr

structure TypeDefRow where
  flags : Nat
  name : Nat
  ns : Nat
  base : Option Token
  methodList : Nat

structure TypeRefRow where
  scope : RefScope
  name : Nat
  ns : Nat

structure TypeSpecRow where
  signature : Nat

structure AssemblyRefRow where
  name : Nat

structure MethodRow where
  flags : Nat
  name : Nat
  signature : Nat
  paramList : Nat

structure ParamRow where
  flags : Nat
  /-- Parameters count from one; zero is the returned value. -/
  sequence : Nat
  name : Nat

structure InterfaceRow where
  type : Nat
  interface : Token

structure MemberRefRow where
  parent : Token
  name : Nat
  signature : Nat

structure AttributeRow where
  parent : AttributeParent
  constructor : AttributeConstructor
  value : Nat

structure PropertyMapRow where
  parent : Nat
  propertyList : Nat

structure PropertyRow where
  flags : Nat
  name : Nat
  signature : Nat

structure AccessorRow where
  reads : Bool
  writes : Bool
  method : Nat
  property : Nat

structure GenericParamRow where
  number : Nat
  flags : Nat
  owner : GenericOwner
  name : Nat

structure ConstraintRow where
  param : Nat
  constraint : Token

structure Module where
  assembly : String := ""
  strings : StringHeap := {}
  blobs : BlobHeap := {}
  typeDefs : Array TypeDefRow := #[]
  typeRefs : Array TypeRefRow := #[]
  typeSpecs : Array TypeSpecRow := #[]
  assemblyRefs : Array AssemblyRefRow := #[]
  methods : Array MethodRow := #[]
  params : Array ParamRow := #[]
  interfaces : Array InterfaceRow := #[]
  memberRefs : Array MemberRefRow := #[]
  attributes : Array AttributeRow := #[]
  propertyMaps : Array PropertyMapRow := #[]
  properties : Array PropertyRow := #[]
  accessors : Array AccessorRow := #[]
  genericParams : Array GenericParamRow := #[]
  constraints : Array ConstraintRow := #[]

namespace Module

def row {α : Type} (name : TableName) (table : Array α) (row : Nat) : Except Malformed α :=
  match row with
  | 0 => .error (.absentRow name 0)
  | i + 1 =>
    match table[i]? with
    | some found => .ok found
    | none => .error (.absentRow name (i + 1))

variable (m : Module)

def typeDef (i : Nat) : Except Malformed TypeDefRow := row .typeDef m.typeDefs i
def typeRef (i : Nat) : Except Malformed TypeRefRow := row .typeRef m.typeRefs i
def typeSpec (i : Nat) : Except Malformed TypeSpecRow := row .typeSpec m.typeSpecs i
def assemblyRef (i : Nat) : Except Malformed AssemblyRefRow := row .assemblyRef m.assemblyRefs i
def method (i : Nat) : Except Malformed MethodRow := row .methodDef m.methods i
def param (i : Nat) : Except Malformed ParamRow := row .param m.params i
def memberRef (i : Nat) : Except Malformed MemberRefRow := row .memberRef m.memberRefs i
def property (i : Nat) : Except Malformed PropertyRow := row .property m.properties i
def genericParam (i : Nat) : Except Malformed GenericParamRow := row .genericParam m.genericParams i

/-- Rows of a list that starts at `start`. The last list runs to the end of its table. -/
def listRows (start : Nat) (next : Option Nat) (size : Nat) : List Nat :=
  List.range' start (next.getD (size + 1) - start)

def typeDefRows : List Nat := List.range' 1 m.typeDefs.size

/-- Methods of a type, in table order. -/
def methodsOf (type : Nat) : Except Malformed (List Nat) := do
  let found ← m.typeDef type
  pure (listRows found.methodList (m.typeDefs[type]?.map (·.methodList)) m.methods.size)

/-- Parameter rows of a method, in table order. -/
def paramsOf (method : Nat) : Except Malformed (List Nat) := do
  let found ← m.method method
  pure (listRows found.paramList (m.methods[method]?.map (·.paramList)) m.params.size)

/-- The list behind the first map of `type`. -/
def propertiesIn (size type : Nat) : List PropertyMapRow → List Nat
  | [] => []
  | map :: rest =>
    if map.parent = type then
      listRows map.propertyList (rest.head?.map (·.propertyList)) size
    else propertiesIn size type rest

/-- Properties of a type, in table order. -/
def propertiesOf (type : Nat) : List Nat :=
  propertiesIn m.properties.size type m.propertyMaps.toList

/-- Rows of a table that satisfy a condition, counted from `start`. -/
def rowsWhere {α : Type} (p : α → Bool) (start : Nat) : List α → List (Nat × α)
  | [] => []
  | x :: xs =>
    if p x then (start, x) :: rowsWhere p (start + 1) xs else rowsWhere p (start + 1) xs

/-- Generic parameters of a type or method in the order of their numbers. -/
def genericParamsOf (owner : GenericOwner) : List Nat :=
  let found := rowsWhere (·.owner == owner) 1 m.genericParams.toList
  (found.mergeSort fun a b => a.2.number ≤ b.2.number).map (·.1)

def constraintsOf (param : Nat) : List Token :=
  (m.constraints.toList.filter (·.param == param)).map (·.constraint)

/-- Interfaces of a type, in table order. -/
def interfacesOf (type : Nat) : List Token :=
  (m.interfaces.toList.filter (·.type == type)).map (·.interface)

def attributesOf (parent : AttributeParent) : List AttributeRow :=
  m.attributes.toList.filter (·.parent == parent)

/-- Getter and setter of a property. Of several the last counts. -/
def accessorsOf (property : Nat) : Option Nat × Option Nat :=
  let rows := m.accessors.toList.filter (·.property == property)
  ((rows.filter (·.reads)).getLast?.map (·.method), (rows.filter (·.writes)).getLast?.map (·.method))

/-- The first type whose methods include the given one. -/
def declaringTypeOf (method : Nat) : Option Nat :=
  m.typeDefRows.find? fun type =>
    match m.methodsOf type with
    | .ok methods => methods.contains method
    | .error _ => false

/-- Namespace and stored name of a type definition. -/
def typeDefName (type : Nat) : Except Malformed (String × String) := do
  let found ← m.typeDef type
  let ns ← m.strings.get found.ns
  let name ← m.strings.get found.name
  pure (ns, name)

/-- The last definition of a name. Definitions whose name cannot be read are passed by. -/
def findTypeDef (ns name : String) : Option Nat :=
  m.typeDefRows.reverse.find? fun type =>
    match m.typeDefName type with
    | .ok found => found == (ns, name)
    | .error _ => false

/-- Namespace and stored name of a token; a specification has none. -/
def typeName (token : Token) : Except Malformed (Option (String × String)) :=
  match token with
  | .definition row => (m.typeDefName row).map some
  | .reference row => do
    let found ← m.typeRef row
    let ns ← m.strings.get found.ns
    let name ← m.strings.get found.name
    pure (some (ns, name))
  | .specification _ => .ok none

/-- The name of the assembly that scopes lead to, over at most `fuel` outer types. -/
def scopeAssembly : Nat → RefScope → Except Fault String
  | _, .ownModule => .ok m.assembly
  | _, .assembly row =>
    match m.assemblyRef row with
    | .error cause => .error (.malformed cause)
    | .ok found => (m.strings.get found.name).mapError .malformed
  | fuel, .outer row =>
    match m.typeRef row with
    | .error cause => .error (.malformed cause)
    | .ok found =>
      match fuel with
      | 0 => .error .endless
      | fuel + 1 => scopeAssembly fuel found.scope

/-- The assembly a type reference points into. A walk over more types than there are
passes one twice and never ends. -/
def referenceAssembly (row : Nat) : Except Fault String :=
  match m.typeRef row with
  | .error cause => .error (.malformed cause)
  | .ok found => m.scopeAssembly m.typeRefs.size found.scope

/-- The module in one line. -/
def summary : String :=
  "MetadataReader \x7b assembly: " ++ Text.shown m.assembly ++ ", type_definitions: " ++
    toString m.typeDefs.size ++ ", type_references: " ++ toString m.typeRefs.size ++ ", methods: " ++
    toString m.methods.size ++ " \x7d"

end Module

end TypeAtlas.Metadata
