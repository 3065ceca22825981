import TypeAtlas.Atlas.Signature
import TypeAtlas.Metadata.AttributeValue

/-!
The shape of a definition in a module. It is the one that source would give: properties
stand where their first accessor stands, other special methods are left out, and members
and attributes get a text of their own.
-/

namespace TypeAtlas.Work

open Metadata

variable (found : Use → Work Unit) (library : Library)

/-- The namespace of the attributes by which compilers talk to each other. -/
def compilerNamespace : String := "System.Runtime.CompilerServices"

def isCompilerType : Option (String × String) → Bool
  | some (ns, _) => ns == compilerNamespace
  | none => false

/-- The type of an attribute and the signature of its constructor. A constructor that
belongs to no type makes no attribute. -/
def attributeType (m : Metadata.Module) : AttributeConstructor → Except Malformed (Option (Token × Nat))
  | .method row =>
    match m.declaringTypeOf row with
    | none => .ok none
    | some type => do
      let method ← m.method row
      return some (.definition type, method.signature)
  | .member row => do
    let member ← m.memberRef row
    return some (member.parent, member.signature)

/-- The value of an attribute. One that cannot be read counts as empty. -/
def attributeValue (m : Metadata.Module) (params : List SigType) (blob : Bytes) : AttributeValue :=
  match AttributeValue.ofBlob m params blob with
  | .ok value => value
  | .error _ => {}

def isLeftOut (type : Token) : Work Bool := do
  if (← get).settings.skipCompilerAttributes then
    return isCompilerType (← check (library.module.typeName type))
  else return false

def readAttribute (scope : Scope) (type : Token) (signature value : Nat) : Work Attribute := do
  let m := library.module
  let use ← tokenFinding found library scope type
  let blob ← check (m.blobs.get signature)
  let constructor ← check (MethodSig.ofBlob blob)
  let blob ← check (m.blobs.get value)
  let value := attributeValue m constructor.params blob
  let g ← graph
  let name := use.name g.nameOf
  return { name, use, handle := .synthesized .attributeNode (name ++ value.render) }

/-- One attribute, unless it is left out. -/
def storedAttribute (scope : Scope) (row : AttributeRow) : Work (Option Attribute) := do
  match ← check (attributeType library.module row.constructor) with
  | none => return none
  | some (type, signature) =>
    if ← isLeftOut library type then return none
    else return some (← readAttribute found library scope type signature row.value)

/-- The attributes of a row, in table order. -/
def storedAttributes (scope : Scope) (parent : AttributeParent) : Work (List Attribute) := do
  let rows ← (library.module.attributesOf parent).mapM (storedAttribute found library scope)
  return rows.filterMap id

/-- One constraint. The one that marks value types is not written in source. -/
def storedConstraint (scope : Scope) (token : Token) : Work (Option Use) := do
  if (← check (library.module.typeName token)) == some ("System", "ValueType") then return none
  else return some (← tokenFinding found library scope token)

def storedConstraints (scope : Scope) (param : Nat) : Work (List Use) := do
  let uses ← (library.module.constraintsOf param).mapM (storedConstraint found library scope)
  return uses.filterMap id

def storedGenerics (scope : Scope) (owner : GenericOwner) (names : List String) :
    Work (List GenericParam) := do
  let constraints ← (library.module.genericParamsOf owner).mapM (storedConstraints found library scope)
  return names.zipWith (fun name constraints => { name, constraints }) constraints

/-- Bases that follow from the kind and are not written. -/
def isImplicitBase (m : Metadata.Module) (token : Token) : Bool :=
  match m.typeName token with
  | .ok (some ("System", name)) => name == "Object" || name == "ValueType" || name == "Enum"
  | _ => false

def basesOf (m : Metadata.Module) (row : Nat) : Except Malformed (List Token) := do
  let type ← m.typeDef row
  return (type.base.toList.filter (!isImplicitBase m ·)) ++ m.interfacesOf row

structure Accessed where
  property : Nat
  getter : Bool
  setter : Bool

def accessedBy (m : Metadata.Module) (type : Nat) : List (Nat × Accessed) :=
  (m.propertiesOf type).filterMap fun property =>
    let (getter, setter) := m.accessorsOf property
    let first := match getter, setter with
      | some g, some s => some (min g s)
      | some g, none => some g
      | none, setter => setter
    first.map fun method => (method, ⟨property, getter.isSome, setter.isSome⟩)

def storedProperty (scope : Scope) (accessed : Accessed) : Work Property := do
  let m := library.module
  let row ← check (m.property accessed.property)
  let name ← check (m.strings.get row.name)
  let blob ← check (m.blobs.get row.signature)
  let signature ← check (PropertySig.ofBlob blob)
  let type ← signatureFinding found library scope signature.type
  let attributes ← storedAttributes found library scope (.property accessed.property)
  let g ← graph
  let text := propertySignature (type.display g.nameOf) name accessed.getter accessed.setter
  return { name, type, getter := accessed.getter, setter := accessed.setter, attributes
           handle := .synthesized .propertyNode ("public " ++ text) }

/-- The names of a method's parameters by their place, counted from one. -/
def paramNames (m : Metadata.Module) (method : Nat) : Except Malformed (List (Nat × String)) := do
  let rows ← (← m.paramsOf method).mapM fun row => do
    let param ← m.param row
    if param.sequence = 0 then return none
    let name ← m.strings.get param.name
    return some (param.sequence, name)
  return (rows.filterMap id).reverse

def paramName (names : List (Nat × String)) (place : Nat) : String :=
  (names.lookup (place + 1)).getD ("arg" ++ toString place)

def storedMethod (scope : Scope) (row : Nat) : Work Method := do
  let m := library.module
  let method ← check (m.method row)
  let name ← check (m.strings.get method.name)
  let blob ← check (m.blobs.get method.signature)
  let signature ← check (MethodSig.ofBlob blob)
  let genericNames ← check (m.genericNames (.method row))
  let scope := { scope with methodParams := genericNames }
  let returns ← signatureFinding found library scope signature.ret
  let names ← check (paramNames m row)
  let types ← signature.params.mapM (signatureFinding found library scope)
  let params := types.zipIdx.map fun (type, place) => { name := paramName names place, type }
  let generics ← storedGenerics found library scope (.method row) genericNames
  let attributes ← storedAttributes found library scope (.method row)
  let g ← graph
  let text := methodSignature (returns.display g.nameOf) name genericNames
    (params.map fun param : Parameter => (param.type.display g.nameOf, param.name))
  return { name, returns, params, generics, attributes
           handle := .synthesized .methodNode ("public " ++ text ++ ";") }

/-- Methods that source has no declaration of: accessors, constructors, generated ones. -/
def isSpecial (flags : Nat) (name : String) : Bool :=
  flags.testBit 11 || flags.testBit 12 || name.startsWith "<"

/-- The member that a method row stands for, if it stands for one. -/
def storedMember (scope : Scope) (properties : List (Nat × Accessed)) (row : Nat) :
    Work (Option Member) := do
  match properties.lookup row with
  | some accessed => return some (.property (← storedProperty found library scope accessed))
  | none =>
    let method ← check (library.module.method row)
    let name ← check (library.module.strings.get method.name)
    if isSpecial method.flags name then return none
    else return some (.method (← storedMethod found library scope row))

/-- Publish the shape of a definition part by part, each base and each member as soon as it is
found out. Of an enum only the attributes count. -/
def publishStored (id : DeclId) (scope : Scope) (kind : Kind) (row : Nat) : Work Unit := do
  if kind = .enumType then
    let attributes ← storedAttributes found library scope (.type row)
    amend id ({ · with attributes := attributes })
  else
    let m := library.module
    let names ← check (m.genericNames (.type row))
    amend id (·.withParams names)
    let scope := { scope with typeParams := names }
    let generics ← storedGenerics found library scope (.type row) names
    amend id ({ · with generics := generics })
    let bases ← check (basesOf m row)
    bases.forM fun base => do
      let use ← tokenFinding found library scope base
      amend id (·.addBase use)
    let methods ← check (m.methodsOf row)
    methods.forM fun method => do
      match ← storedMember found library scope (accessedBy m row).reverse method with
      | some member => amend id (·.addMember member)
      | none => return ()
    let attributes ← storedAttributes found library scope (.type row)
    amend id ({ · with attributes := attributes })

end TypeAtlas.Work
