import TypeAtlas.Atlas.ModuleShape
import TypeAtlas.Atlas.SourceShape

/-!
Loading, and the public operations on an atlas. A declaration counts as loaded from the
moment its load begins, so declarations that refer to each other in a circle load each
other only once. Its shape is published while it is found out; a load that fails clears what it
has published.
-/

namespace TypeAtlas

/-- How many declarations there can ever be: those that are registered and those that the
modules at hand define. -/
def Atlas.capacity (atlas : Atlas) : Nat :=
  let ofDeclaration (d : Declaration) : Nat := match d.provenance with
    | .source => 0
    | .module m _ => m.typeDefs.size
  let inLibraries := atlas.libraries.foldl (fun n library => n + library.module.typeDefs.size) 0
  atlas.graph.declarations.foldl (fun n d => n + ofDeclaration d) (atlas.graph.size + inLibraries)

namespace Work

/-- What the load policy makes of a use: its declaration is loaded or left. -/
def followWith (load : DeclId → Work Unit) (use : Use) : Work Unit := do
  match (← get).settings.loadPolicy, use.target? with
  | .onResolve, some id => load id
  | _, _ => return ()

/-- Find out the shape of a declaration and publish it under its number. -/
def publishShape (found : Use → Work Unit) (id : DeclId) (d : Declaration) : Work Unit :=
  match d.provenance with
  | .source => publishSource found id d
  | .module m row =>
    let scope := { requester := d.fullName, location := d.location }
    publishStored found ⟨m, d.location⟩ id scope d.kind row

/-- Take back what a load has published. -/
def rollBack (id : DeclId) : Work Unit :=
  change id fun d => { d with loaded := false, shape := d.shape.clear }

/-- Load a declaration, where loads that begin during this one are nested at most `fuel`
deep. -/
def loadWith : Nat → DeclId → Work Unit
  | 0, _ => throw .endless
  | fuel + 1, id => do
    match (← graph).get? id with
    | none => return ()
    | some d =>
      if d.loaded then return ()
      change id ({ · with loaded := true })
      tryCatch (publishShape (followWith (loadWith fuel)) id d) fun fault => do
        rollBack id
        throw fault
      setGraph ((← graph).recordReferences id)

/-- Load a declaration. Nested loads are loads of different declarations. -/
def load (id : DeclId) : Work Unit := do loadWith ((← get).capacity + 1) id

def follow : Use → Work Unit := followWith load

/-- Resolve a written reference. -/
def resolve (scope : Scope) (ref : TypeRef) : Work Use := resolveFinding follow scope ref

def resolveAttribute (scope : Scope) (ref : TypeRef) : Work Use :=
  resolveAttributeFinding follow scope ref

def resolveToken (library : Library) (scope : Scope) (token : Metadata.Token) : Work Use :=
  tokenFinding follow library scope token

def resolveSignature (library : Library) (scope : Scope) (type : Metadata.SigType) : Work Use :=
  signatureFinding follow library scope type

def resolveType (type : RuntimeType) : Work Use := runtimeFinding follow type

/-- Whether what stands at a distance is still followed. -/
def isWithin (budget : Option Nat) (depth : Nat) : Bool :=
  match budget with
  | some limit => depth < limit
  | none => true

/-- Load declarations in the order of a queue, those they refer to behind it. Entries carry
their distance from the first; beyond `budget` nothing is followed. At most `fuel` different
declarations are met. -/
def deepLoadWith (budget : Option Nat) : Nat → List DeclId → List (DeclId × Nat) → Work Nat
  | fuel, visited, queue =>
    match queue.dropWhile (visited.contains ·.1) with
    | [] => return visited.length
    | (id, depth) :: rest =>
      match fuel with
      | 0 => throw .endless
      | fuel + 1 => do
        load id
        let visited := id :: visited
        let g ← graph
        let next := if isWithin budget depth then g.neighbours id else []
        let next := next.filter (!visited.contains ·)
        deepLoadWith budget fuel visited (rest ++ next.map (·, depth + 1))

/-- Load a declaration and everything it leads to, nearest first. The result is the number
of declarations met. -/
def deepLoad (root : DeclId) : Work Nat := do
  let atlas ← get
  deepLoadWith atlas.settings.maxLoadDepth (atlas.capacity + 1) [] [(root, 0)]

/-- Load everything that is registered. -/
def loadAll : Work Unit := do
  (← graph).ids.forM load

def addDocument (document : Source.Document) : Work (List DeclId) :=
  document.declarations.mapM fun placed => do
    let d ← check (Declaration.ofPlaced (← get).settings.implicitUsings document placed)
    register d

/-- Make a module available. Its types are registered when something refers to them. -/
def addLibrary (library : Library) : Work Unit :=
  modify fun atlas => { atlas with libraries := atlas.libraries ++ [library] }

/-- Make a module available and register all its types. -/
def importLibrary (library : Library) : Work (List DeclId) := do
  addLibrary library
  library.module.typeDefRows.mapM (define library)

/-- Attach a value to a declaration. -/
def setData (id : DeclId) (value : Datum) : Work Unit := do
  setGraph (← settle ((← graph).setData id value))

end Work

end TypeAtlas
