import TypeAtlas.Declaration
import TypeAtlas.Source.Reference

/-!
The place a reference is written at, and the full names that a written name can stand for
there.
-/

namespace TypeAtlas

structure Scope where
  /-- Who asks, for messages. -/
  requester : String
  location : String
  ns : String := ""
  /-- Using directives in the order they count. An alias reads `Alias = Target`. -/
  usings : List String := []
  typeParams : List String := []
  methodParams : List String := []

/-- A full name that a written name can stand for. -/
inductive Candidate where
  | name (fullName : String)
  /-- An alias of a type with arguments of its own. -/
  | aliased (target : TypeRef)

/-- The plain names among candidates. -/
def Candidate.names (candidates : List Candidate) : List String :=
  candidates.filterMap fun
    | .name fullName => some fullName
    | .aliased _ => none

namespace Scope

/-- Inside a declaration. -/
def ofDeclaration (d : Declaration) : Scope where
  requester := d.fullName
  location := d.location
  ns := d.ns
  usings := d.usings
  typeParams := d.shape.generics.map (·.name)

/-- What the target of an alias sees: full names only. -/
def forAlias (scope : Scope) : Scope := { requester := scope.requester, location := scope.location }

/-- A namespace and those around it, the innermost first. A namespace has at most `fuel`
dots. -/
def enclosing : Nat → String → List String
  | fuel, ns =>
    if ns.isEmpty then []
    else ns :: match fuel, Text.cutLast '.' ns with
      | fuel + 1, some (outer, _) => enclosing fuel outer
      | _, _ => []

/-- The generic parameter of a name, those of the method first. -/
def param? (scope : Scope) (name : String) : Option Use :=
  match scope.methodParams.idxOf? name with
  | some position => some (.param name position .method none)
  | none => (scope.typeParams.idxOf? name).map fun position => .param name position .type none

/-- What an alias makes of a name that it opens. -/
def aliasCandidate (target : String) : Option String → Candidate
  | some rest => .name (target ++ "." ++ rest)
  | none =>
    if target.toList.contains '<' then
      match TypeRef.parse target with
      | .ok ref => .aliased ref
      | .error _ => .name target
    else .name target

/-- What one using directive makes of a name. -/
def usingCandidate (name directive : String) : Option Candidate :=
  match Text.cutFirst '=' directive with
  | some (title, target) =>
    let (head, rest) := match Text.cutFirst '.' name with
      | some (head, rest) => (head, some rest)
      | none => (name, none)
    if Text.trim title = head then some (aliasCandidate (Text.trim target) rest) else none
  | none => some (.name (qualify (Text.trim directive) name))

/-- What a name can stand for: what it says, then a name in an enclosing namespace, the
innermost first, then what the using directives make of it. -/
def candidates (scope : Scope) (name : String) : List Candidate :=
  .name name ::
    ((enclosing scope.ns.length scope.ns).map fun ns => .name (qualify ns name)) ++
    scope.usings.filterMap (usingCandidate name)

end Scope

end TypeAtlas
