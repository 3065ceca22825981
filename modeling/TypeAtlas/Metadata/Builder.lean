import TypeAtlas.Metadata.AttributeValue

/-!
Building a module row by row. Types are defined one after another; methods and
properties go to the type defined last. A call that fails may already have stored a
name or opened a property list.
-/

namespace TypeAtlas.Metadata

structure Builder where
  module : Module
  /-- The type that methods and properties are added to. -/
  openType : Option Nat := none
  /-- Rows of the type references made so far. -/
  references : List ((RefScope × String × String) × Nat) := []

/-- A building step. What it changed before a failure stays. -/
abbrev Build := ExceptT Malformed (StateM Builder)

namespace Builder

def ofAssembly (assembly : String) : Builder := { module := { assembly := assembly } }

def modifyModule (f : Module → Module) : Build Unit :=
  modify fun b => { b with module := f b.module }

def intern (text : String) : Build Nat := do
  let b ← get
  let (offset, strings) := b.module.strings.intern text
  modifyModule fun m => { m with strings := strings }
  pure offset

def pushBlob (blob : Bytes) : Build Nat := do
  let b ← get
  let (offset, blobs) ← MonadExcept.ofExcept (b.module.blobs.push blob)
  modifyModule fun m => { m with blobs := blobs }
  pure offset

def requireType : Build Nat := do
  match (← get).openType with
  | some type => pure type
  | none => throw .noOpenType

/-- The row of an assembly reference, one for each name. -/
def assemblyReference (name : String) : Build Nat := do
  let offset ← intern name
  let b ← get
  match b.module.assemblyRefs.findIdx? (·.name == offset) with
  | some i => pure (i + 1)
  | none =>
    modifyModule fun m => { m with assemblyRefs := m.assemblyRefs.push ⟨offset⟩ }
    pure (b.module.assemblyRefs.size + 1)

/-- The token of a type reference, one for each scope, namespace and name. -/
def typeReference (scope : RefScope) (ns name : String) : Build Token := do
  match (← get).references.lookup (scope, ns, name) with
  | some row => pure (.reference row)
  | none =>
    let nameOffset ← intern name
    let nsOffset ← intern ns
    modifyModule fun m => { m with typeRefs := m.typeRefs.push ⟨scope, nameOffset, nsOffset⟩ }
    let row := (← get).module.typeRefs.size
    modify fun b => { b with references := ((scope, ns, name), row) :: b.references }
    pure (.reference row)

def externalType (assembly ns name : String) : Build Token := do
  let row ← assemblyReference assembly
  typeReference (.assembly row) ns name

def typeSpecification (sig : SigType) : Build Token := do
  let blob ← MonadExcept.ofExcept sig.write
  let offset ← pushBlob blob
  modifyModule fun m => { m with typeSpecs := m.typeSpecs.push ⟨offset⟩ }
  pure (.specification (← get).module.typeSpecs.size)

/-- Start a type; what follows is added to it. -/
def defineType (flags : Nat) (ns name : String) (base : Option Token) : Build Nat := do
  let nameOffset ← intern name
  let nsOffset ← intern ns
  modifyModule fun m =>
    { m with typeDefs := m.typeDefs.push ⟨flags, nameOffset, nsOffset, base, m.methods.size + 1⟩ }
  let row := (← get).module.typeDefs.size
  modify fun b => { b with openType := some row }
  pure row

/-- Change the base of a type that is already defined. -/
def setBase (type : Nat) (base : Token) : Build Unit := do
  if type = 0 ∨ (← get).module.typeDefs.size < type then
    throw (.absentBase type)
  modifyModule fun m =>
    { m with typeDefs := m.typeDefs.modify (type - 1) fun row => { row with base := some base } }

def addInterface (type : Nat) (interface : Token) : Build Unit :=
  modifyModule fun m => { m with interfaces := m.interfaces.push ⟨type, interface⟩ }

/-- Parameters of one owner are numbered from zero in sixteen bits. -/
def addGenericParam (owner : GenericOwner) (name : String) : Build Nat := do
  let number := ((← get).module.genericParams.countP (·.owner == owner)) % 0x10000
  let offset ← intern name
  modifyModule fun m =>
    { m with genericParams := m.genericParams.push ⟨number, 0, owner, offset⟩ }
  pure (← get).module.genericParams.size

def addConstraint (param : Nat) (constraint : Token) : Build Unit :=
  modifyModule fun m => { m with constraints := m.constraints.push ⟨param, constraint⟩ }

/-- Rows for the named parameters of a method, numbered on from `sequence`. -/
def addParams : Nat → List String → Build Unit
  | _, [] => pure ()
  | sequence, name :: names => do
    let offset ← intern name
    modifyModule fun m => { m with params := m.params.push ⟨0, sequence % 0x10000, offset⟩ }
    addParams (sequence + 1) names

def addMethod (flags : Nat) (name : String) (sig : MethodSig) (names : List String) :
    Build Nat := do
  let _ ← requireType
  let blob ← MonadExcept.ofExcept sig.write
  let nameOffset ← intern name
  let sigOffset ← pushBlob blob
  modifyModule fun m =>
    { m with methods := m.methods.push ⟨flags, nameOffset, sigOffset, m.params.size + 1⟩ }
  addParams 1 names
  pure (← get).module.methods.size

/-- Flags of methods that stand for something else in source. -/
def specialName : Nat := 0x0800

/-- Flags of methods whose name has a meaning at run time. -/
def runtimeSpecialName : Nat := 0x1000

/-- Public, hiding by signature. -/
def ordinaryFlags : Nat := 0x0086

/-- An instance method without generic parameters. -/
def instanceSig (ret : SigType) (params : List SigType) : MethodSig := ⟨true, 0, ret, params⟩

def addConstructor (params : List SigType) (names : List String) : Build Nat :=
  addMethod (ordinaryFlags + specialName + runtimeSpecialName) ".ctor"
    (instanceSig (.builtin .void) params) names

/-- Open a property list for a type unless the last one is its own. -/
def openProperties (type : Nat) : Build Unit :=
  modifyModule fun m =>
    if m.propertyMaps.back?.map (·.parent) = some type then m
    else { m with propertyMaps := m.propertyMaps.push ⟨type, m.properties.size + 1⟩ }

/-- Add the method that reads or writes a property, if the property has one. -/
def addAccessor (isThere reads : Bool) (name : String) (sig : MethodSig) (names : List String)
    (property : Nat) : Build Unit :=
  if isThere then do
    let method ← addMethod (ordinaryFlags + specialName) name sig names
    modifyModule fun m => { m with accessors := m.accessors.push ⟨reads, !reads, method, property⟩ }
  else pure ()

def addProperty (name : String) (type : SigType) (getter setter : Bool) : Build Nat := do
  let owner ← requireType
  openProperties owner
  let blob ← MonadExcept.ofExcept (PropertySig.write ⟨true, type, []⟩)
  let nameOffset ← intern name
  let sigOffset ← pushBlob blob
  modifyModule fun m => { m with properties := m.properties.push ⟨0, nameOffset, sigOffset⟩ }
  let property := (← get).module.properties.size
  addAccessor getter true ("get_" ++ name) (instanceSig type []) [] property
  addAccessor setter false ("set_" ++ name) (instanceSig (.builtin .void) [type]) ["value"] property
  pure property

def memberReference (parent : Token) (name : String) (sig : MethodSig) : Build Nat := do
  let blob ← MonadExcept.ofExcept sig.write
  let nameOffset ← intern name
  let sigOffset ← pushBlob blob
  modifyModule fun m => { m with memberRefs := m.memberRefs.push ⟨parent, nameOffset, sigOffset⟩ }
  pure (← get).module.memberRefs.size

def addAttribute (parent : AttributeParent) (constructor : AttributeConstructor)
    (value : AttributeValue) : Build Unit := do
  let blob ← MonadExcept.ofExcept value.write
  let offset ← pushBlob blob
  modifyModule fun m => { m with attributes := m.attributes.push ⟨parent, constructor, offset⟩ }

end Builder

end TypeAtlas.Metadata
