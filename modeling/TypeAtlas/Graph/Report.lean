import TypeAtlas.Graph.Basic
import TypeAtlas.Text.LowerCase

/-!
What the graph tells its readers: searches, neighbours, summaries and counts.
-/

namespace TypeAtlas

/-- How well a name answers a query; lower is better. -/
def searchRank (query name : String) : Option Nat :=
  if name = query then some 0
  else
    let name := Text.lower name
    let query := Text.lower query
    if query.toList.isPrefixOf name.toList then some 1
    else if Text.holds name query then some 2
    else none

/-- A neighbour of a declaration and what relates the two. -/
structure Neighbour where
  id : DeclId
  kind : EdgeKind

structure MemberSummary where
  kind : String
  name : String
  signature : String
  attributes : List String

structure Summary where
  kind : Kind
  fullName : String
  location : String
  provenance : String
  loaded : Bool
  generics : List String
  bases : List String
  members : List MemberSummary
  attributes : List String

structure Stats where
  declarations : Nat
  loaded : Nat
  edges : Nat
  classes : Nat
  interfaces : Nat
  structs : Nat
  enums : Nat
  fromSource : Nat
  fromModules : Nat
  locations : Nat

namespace Graph

/-- Declarations whose simple name answers a query: the same name first, then names that
begin with it, then names that hold it, letter case aside. Ties go by name and by age. -/
def search (g : Graph) (query : String) (limit : Nat) : List DeclId :=
  let hits := g.byName.entries.flatMap fun (name, ids) =>
    match searchRank query name with
    | some rank => ids.map fun id => (rank, name, id)
    | none => []
  let before : Nat × String × DeclId → Nat × String × DeclId → Bool
    | (rank, name, id), (rank', name', id') =>
      rank < rank' || rank == rank' && (name < name' || name == name' && id ≤ id')
  ((hits.mergeSort before).take limit).map (·.2.2)

/-- Who refers to a declaration, the latest first. -/
def dependents (g : Graph) (id : DeclId) : List Neighbour :=
  (g.incoming id).map fun edge => ⟨edge.source, edge.kind⟩

/-- What a declaration refers to, the latest first. -/
def dependencies (g : Graph) (id : DeclId) : List Neighbour :=
  (g.outgoing id).map fun edge => ⟨edge.target, edge.kind⟩

def genericText (g : Graph) (param : GenericParam) : String :=
  if param.constraints.isEmpty then param.name
  else param.name ++ " : " ++ Text.joinWith ", " (Use.displayEach g.nameOf param.constraints)

def attributeTexts (attributes : List Attribute) : List String := attributes.map (·.handle.text)

def summarize (g : Graph) (d : Declaration) : Summary where
  kind := d.kind
  fullName := d.fullName
  location := d.location
  provenance := match d.provenance with
    | .source => "syntax"
    | .module .. => "metadata"
  loaded := d.loaded
  generics := d.shape.generics.map g.genericText
  bases := Use.displayEach g.nameOf d.shape.bases
  members := d.shape.members.map fun m =>
    ⟨m.word, m.name, m.signature g.nameOf, attributeTexts m.attributes⟩
  attributes := attributeTexts d.shape.attributes

def summary? (g : Graph) (id : DeclId) : Option Summary := (g.get? id).map g.summarize

def summaries (g : Graph) : List Summary := g.declarations.toList.map g.summarize

def stats (g : Graph) : Stats :=
  let count (p : Declaration → Bool) : Nat := g.declarations.toList.countP p
  { declarations := g.size
    loaded := count (·.loaded)
    edges := g.edges.length
    classes := count (·.kind == .classType)
    interfaces := count (·.kind == .interfaceType)
    structs := count (·.kind == .structType)
    enums := count (·.kind == .enumType)
    fromSource := count fun d => match d.provenance with
      | .source => true
      | .module .. => false
    fromModules := count fun d => match d.provenance with
      | .source => false
      | .module .. => true
    locations := g.byLocation.size }

end Graph

end TypeAtlas
