import TypeAtlas.Graph.Basic
import TypeAtlas.Origin
import TypeAtlas.Settings

/-!
An atlas: the graph of one run with the modules it can draw on. Work on it may fail; what
was registered before the failure stays.
-/

namespace TypeAtlas

structure Atlas where
  settings : Settings := {}
  graph : Graph := {}
  /-- Modules in the order they were made available. -/
  libraries : List Library := []

/-- A step of work on an atlas. -/
abbrev Work := ExceptT Fault (StateM Atlas)

namespace Work

/-- The result of a check on input. -/
def check {α : Type} : Except Malformed α → Work α
  | .ok a => pure a
  | .error cause => throw (.malformed cause)

/-- The result of a step that may fail. -/
def settle {α : Type} : Except Fault α → Work α
  | .ok a => pure a
  | .error fault => throw fault

def graph : Work Graph := return (← get).graph

def setGraph (g : Graph) : Work Unit := modify ({ · with graph := g })

def register (d : Declaration) : Work DeclId := do
  let (id, g) := (← graph).add d
  setGraph g
  return id

def change (id : DeclId) (f : Declaration → Declaration) : Work Unit := do
  setGraph ((← graph).modify id f)

/-- Publish a part of the shape of a declaration. -/
def amend (id : DeclId) (f : Shape → Shape) : Work Unit :=
  change id fun d => { d with shape := f d.shape }

/-- The declaration for a definition of a library, registered when it is first needed. -/
def define (library : Library) (row : Nat) : Work DeclId := do
  let (ns, raw) ← check (library.module.typeDefName row)
  let (name, arity) := Metadata.splitArity raw
  match (← graph).findQualified ⟨qualify ns name, arity, library.location⟩ with
  | some id => return id
  | none => register (← check (Declaration.ofDefinition none library row))

end Work

def Library.first? (libraries : List Library) (arity : Nat) (fullName : String) :
    Option (Library × Nat) :=
  let (ns, name) := Metadata.splitNamespace fullName
  libraries.findSome? fun library =>
    (library.module.findTypeDef ns (Metadata.markArity name arity)).map (library, ·)

/-- The declaration for the first of some names that a library defines. -/
def Work.defineFirst (arity : Nat) (names : List String) : Work (Option DeclId) := do
  match names.findSome? (Library.first? (← get).libraries arity) with
  | some (library, row) => return some (← define library row)
  | none => return none

end TypeAtlas
