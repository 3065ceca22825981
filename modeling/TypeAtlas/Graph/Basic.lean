import TypeAtlas.Declaration
import TypeAtlas.Graph.Index

/-!
The graph of declarations. A declaration is registered once under its full name, arity and
location. Loaded declarations have an edge for everything they refer to.
-/

namespace TypeAtlas

/-- What tells declarations apart. -/
structure Key where
  fullName : String
  arity : Nat
  location : String
deriving DecidableEq, Repr

def Declaration.key (d : Declaration) : Key := ⟨d.fullName, d.arity, d.location⟩

structure Edge where
  kind : EdgeKind
  source : DeclId
  target : DeclId
deriving DecidableEq, Repr

structure Graph where
  declarations : Array Declaration := #[]
  /-- The edge that was recorded last stands first. -/
  edges : List Edge := []
  byName : Index String := {}
  byFullName : Index String := {}
  byKey : Index Key := {}
  byLocation : Index String := {}

namespace Graph

def size (g : Graph) : Nat := g.declarations.size

def ids (g : Graph) : List DeclId := List.range g.size

def get? (g : Graph) (id : DeclId) : Option Declaration := g.declarations[id]?

/-- The simple name of a declaration. -/
def nameOf (g : Graph) (id : DeclId) : String := ((g.get? id).map (·.name)).getD ""

def fullNameOf (g : Graph) (id : DeclId) : String := ((g.get? id).map (·.fullName)).getD ""

/-- The declaration registered under a key. -/
def findQualified (g : Graph) (key : Key) : Option DeclId := (g.byKey.ids key).head?

def find (g : Graph) (fullName : String) : List DeclId := g.byFullName.ids fullName

def declarationsIn (g : Graph) (location : String) : List DeclId := g.byLocation.ids location

/-- Register a declaration. Where its key is taken, the one that has it is kept. -/
def add (g : Graph) (d : Declaration) : DeclId × Graph :=
  match g.findQualified d.key with
  | some id => (id, g)
  | none =>
    let id := g.size
    (id, { g with
      declarations := g.declarations.push d
      byName := g.byName.add d.name id
      byFullName := g.byFullName.add d.fullName id
      byKey := g.byKey.add d.key id
      byLocation := g.byLocation.add d.location id })

def hasArity (g : Graph) (arity : Nat) (id : DeclId) : Bool :=
  match g.get? id with
  | some d => d.arity == arity
  | none => false

/-- The declaration a full name and an arity stand for: the one at the preferred location,
else the first that was registered. -/
def lookup (g : Graph) (fullName : String) (arity : Nat) (location : Option String) :
    Option DeclId :=
  match location.bind fun location => g.findQualified ⟨fullName, arity, location⟩ with
  | some id => some id
  | none => (g.find fullName).find? (g.hasArity arity)

/-- Change one declaration. Its key must stay what it is. -/
def modify (g : Graph) (id : DeclId) (f : Declaration → Declaration) : Graph :=
  { g with declarations := g.declarations.modify id f }

def outgoing (g : Graph) (id : DeclId) : List Edge := g.edges.filter (·.source == id)

def incoming (g : Graph) (id : DeclId) : List Edge := g.edges.filter (·.target == id)

/-- Record an edge unless there is one like it. -/
def addEdge (edges : List Edge) (edge : Edge) : List Edge :=
  if edges.contains edge then edges else edge :: edges

/-- Record everything a declaration refers to. -/
def recordReferences (g : Graph) (id : DeclId) : Graph :=
  match g.get? id with
  | none => g
  | some d =>
    { g with edges := d.shape.references.foldl (fun edges (kind, target) =>
        addEdge edges ⟨kind, id, target⟩) g.edges }

/-- What a declaration refers to, in the order it is written. -/
def neighbours (g : Graph) (id : DeclId) : List DeclId :=
  ((g.get? id).map fun d => d.shape.references.map (·.2)).getD []

def isLoaded (g : Graph) (id : DeclId) : Bool := ((g.get? id).map (·.loaded)).getD false

def loadedIds (g : Graph) : List DeclId := g.ids.filter g.isLoaded

/-- The loaded declarations that name `id` among their bases, in ascending order. -/
def extendedBy (g : Graph) (id : DeclId) : List DeclId :=
  let sources := ((g.incoming id).filter (·.kind == .inherits)).map (·.source)
  g.ids.filter sources.contains

/-- The declarations with an attribute whose type has the given full name. -/
def withAttribute (g : Graph) (fullName : String) : List DeclId :=
  g.ids.filter fun id =>
    match g.get? id with
    | none => false
    | some d => d.shape.attributes.any fun a =>
      match a.use.target? with
      | some target => g.fullNameOf target == fullName
      | none => false

/-- Attach a value to a declaration. -/
def setData (g : Graph) (id : DeclId) (value : Datum) : Except Fault Graph :=
  match g.get? id with
  | none => .ok g
  | some d =>
    match d.data.insert value with
    | some data => .ok (g.modify id ({ · with data := data }))
    | none => .error (.alreadyStored value.slot.title d.fullName)

end Graph

/-- The full name of what is used; a builtin type or a parameter has its simple name. -/
def Use.fullName (g : Graph) (use : Use) : String := use.name g.fullNameOf

/-- The generic parameters of the used declaration with the arguments they stand for. -/
def Use.bindings (g : Graph) : Use → List (String × Use)
  | .declared id args _ =>
    match g.get? id with
    | some d => (d.shape.generics.map (·.name)).zip args
    | none => []
  | .builtin .. | .param .. => []

end TypeAtlas
