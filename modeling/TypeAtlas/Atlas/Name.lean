import TypeAtlas.Atlas.Basic
import TypeAtlas.Atlas.Scope

/-!
Resolution of written references. A name is tried as a generic parameter, then among the
registered declarations, the builtin types and the modules. What happens to a declaration
that a reference leads to is left to the caller.
-/

namespace TypeAtlas

/-- What a name turned out to be. -/
inductive Target where
  | declaration (id : DeclId)
  | builtin (type : Builtin)
  /-- What an alias stands for. -/
  | aliased (use : Use)

def Target.toUse (args : List Use) (array : Option ArrayShape) : Target → Use
  | .declaration id => .declared id args array
  | .builtin type => .builtin type array
  | .aliased use => use.withArray (ArrayShape.join array use.array)

/-- The first candidate that is registered, or an alias with arguments that stands before
it. Such an alias is no answer to a name with arguments. -/
def Graph.match? (g : Graph) (location : String) (arity : Nat) :
    List Candidate → Option (DeclId ⊕ TypeRef)
  | [] => none
  | .name fullName :: rest =>
    match g.lookup fullName arity (some location) with
    | some id => some (.inl id)
    | none => g.match? location arity rest
  | .aliased target :: rest =>
    if arity = 0 then some (.inr target) else g.match? location arity rest

namespace Work

/-- Find what a name stands for. `inAlias` resolves the target of an alias. -/
def target? (inAlias : TypeRef → Work Use) (scope : Scope) (name : String) (arity : Nat) :
    Work (Option Target) := do
  let candidates := scope.candidates name
  match (← graph).match? scope.location arity candidates with
  | some (.inl id) => return some (.declaration id)
  | some (.inr target) => return some (.aliased (← inAlias target))
  | none =>
    let names := Candidate.names candidates
    match Builtin.first? arity names with
    | some type => return some (.builtin type)
    | none => return (← defineFirst arity names).map .declaration

/-- The parameter that a whole reference names. -/
def paramFor? (scope : Scope) (name : String) (args : List TypeRef) : Option Use :=
  if args.isEmpty && !name.toList.contains '.' then scope.param? name else none

mutual

/-- Resolve a reference. `found` is told of every use that is made, and `inAlias` resolves
the targets of aliases. -/
def resolveWith (found : Use → Work Unit) (inAlias : TypeRef → Work Use) (scope : Scope) :
    TypeRef → Work Use
  | .builtin type array => return .builtin type array
  | .named name args array =>
    match paramFor? scope name args with
    | some param => return param.withArray array
    | none => do
      let uses ← resolveEachWith found inAlias scope args
      match ← target? inAlias scope name args.length with
      | none =>
        throw (.unresolved (TypeRef.named name args array).text scope.requester scope.location)
      | some target =>
        let use := target.toUse uses array
        found use
        return use

def resolveEachWith (found : Use → Work Unit) (inAlias : TypeRef → Work Use) (scope : Scope) :
    List TypeRef → Work (List Use)
  | [] => return []
  | ref :: refs => do
    let use ← resolveWith found inAlias scope ref
    let uses ← resolveEachWith found inAlias scope refs
    return use :: uses

end

/-- Resolve a reference where no alias is in sight. -/
def resolvePlain (found : Use → Work Unit) (scope : Scope) : TypeRef → Work Use :=
  resolveWith found
    (fun target => throw (.unresolved target.text scope.requester scope.location)) scope

/-- Resolve a reference. The target of an alias sees no aliases itself. -/
def resolveFinding (found : Use → Work Unit) (scope : Scope) : TypeRef → Work Use :=
  resolveWith found (resolvePlain found scope.forAlias) scope

/-- What the name of an attribute's type ends in. -/
def attributeEnding : String := "Attribute"

/-- The reference with the ending of attributes, if it lacks it. -/
def lengthened? : TypeRef → Option TypeRef
  | .builtin .. => none
  | .named name args array =>
    if attributeEnding.toList.isSuffixOf name.toList then none
    else some (.named (name ++ attributeEnding) args array)

/-- Resolve the name of an attribute. The longer name goes first; only where nothing
answers to it the name as written is tried. -/
def resolveAttributeFinding (found : Use → Work Unit) (scope : Scope) (ref : TypeRef) :
    Work Use :=
  match lengthened? ref with
  | none => resolveFinding found scope ref
  | some long =>
    tryCatch (resolveFinding found scope long) fun fault =>
      match fault with
      | .unresolved reference _ _ =>
        if reference = long.text then resolveFinding found scope ref else throw fault
      | fault => throw fault

end Work

end TypeAtlas
