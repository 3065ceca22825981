import TypeAtlas.Atlas.Name

/-!
The shape of a declaration in source. Every type in it is resolved in the scope of the
declaration, in the order in which the parts are published: constraints, bases, members,
attributes.
-/

namespace TypeAtlas.Work

open Source

variable (found : Use → Work Unit) (document : Document)

def writtenType (scope : Scope) (tree : TypeTree) : Work Use := do
  resolveFinding found scope (← check (tree.toRef document.path))

/-- The types of `where` clauses with the parameters they constrain. -/
def writtenConstraints (scope : Scope) (clauses : List ConstraintTree) :
    Work (List (String × Use)) := do
  let found ← clauses.mapM fun clause =>
    clause.types.mapM fun tree => return (clause.param, ← writtenType found document scope tree)
  return found.flatten

/-- Parameters with their constraints. -/
def constrained (names : List String) (constraints : List (String × Use)) : List GenericParam :=
  constraints.foldl (fun params (name, use) => GenericParam.constrain name use params)
    (names.map ({ name := · }))

/-- Attributes of a returned value belong to no declaration. -/
def onReturn (list : AttributeList) : Bool := (list.target.map (Text.holds · "return")).getD false

/-- The attributes that stand on something. -/
def writtenAttributes (scope : Scope) (lists : List AttributeList) : Work (List Attribute) :=
  ((lists.filter (!onReturn ·)).flatMap (·.attributes)).mapM fun tree => do
    let ref ← check (tree.name.toRef document.path)
    let use ← resolveAttributeFinding found scope ref
    let g ← graph
    return { name := use.name g.nameOf, use, handle := .ofNode document (.ofAttribute tree) }

def writtenProperty (scope : Scope) (tree : PropertyTree) : Work Property := do
  let type ← writtenType found document scope tree.type
  let attributes ← writtenAttributes found document scope tree.attributes
  return { name := tree.name, type, getter := tree.getter, setter := tree.setter, attributes
           handle := .ofNode document (.ofProperty tree) }

/-- The parameters of a method, all of which must have a type. -/
def typedParams (params : List ParameterTree) : Except Malformed (List (String × TypeTree)) :=
  params.mapM fun param =>
    match param.type with
    | some type => .ok (param.name, type)
    | none => .error (.untypedParameter document.path param.text)

def writtenMethod (scope : Scope) (tree : MethodTree) : Work Method := do
  let scope := { scope with methodParams := tree.typeParams }
  let returns ← writtenType found document scope tree.returns
  let typed ← check (typedParams document tree.params)
  let params ← typed.mapM fun (name, type) =>
    return { name, type := ← writtenType found document scope type }
  let constraints ← writtenConstraints found document scope tree.constraints
  let attributes ← writtenAttributes found document scope tree.attributes
  return { name := tree.name, returns, params
           generics := constrained tree.typeParams constraints
           attributes
           handle := .ofNode document (.ofMethod tree) }

def writtenMember (scope : Scope) : MemberTree → Work Member
  | .property tree => return .property (← writtenProperty found document scope tree)
  | .method tree => return .method (← writtenMethod found document scope tree)

/-- Publish the shape of a declaration part by part, each base and each member as soon as it is
found out. Of an enum only the attributes count. -/
def publishWritten (id : DeclId) (scope : Scope) (kind : Kind) (tree : DeclTree) : Work Unit := do
  if kind = .enumType then
    let attributes ← writtenAttributes found document scope tree.attributes
    amend id ({ · with attributes := attributes })
  else
    amend id (·.withParams tree.typeParams)
    let scope := { scope with typeParams := tree.typeParams }
    let constraints ← writtenConstraints found document scope tree.constraints
    amend id (·.constrain constraints)
    tree.bases.forM fun base => do
      let use ← writtenType found document scope base
      amend id (·.addBase use)
    tree.members.forM fun member => do
      let member ← writtenMember found document scope member
      amend id (·.addMember member)
    let attributes ← writtenAttributes found document scope tree.attributes
    amend id ({ · with attributes := attributes })

def publishSource (id : DeclId) (d : Declaration) : Work Unit :=
  match d.handle.node? with
  | some (.ofType tree) =>
    publishWritten found d.handle.place.1 id (.ofDeclaration d) d.kind tree
  | _ => throw (.malformed (.lostSyntax d.fullName d.location))

end TypeAtlas.Work
