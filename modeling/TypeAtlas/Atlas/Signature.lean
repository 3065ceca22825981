import TypeAtlas.Atlas.Basic
import TypeAtlas.Atlas.Scope
import TypeAtlas.Metadata.Signature

/-!
Resolution of what modules refer to: tokens, types in signatures, and types by the name the
runtime gives them.
-/

namespace TypeAtlas

open Metadata (SigType Token)

namespace Work

def numbered (scope : Scope) (names : List String) (owner : ParamOwner) (number : Nat) : Work Use :=
  match names[number]? with
  | some name => return .param name number owner none
  | none => throw (.malformed (.parameterRange number scope.requester scope.location))

/-- A type that another assembly is said to define. The module of that assembly goes before
all others. -/
def external (scope : Scope) (stored assembly : String) : Work Use := do
  let (ns, raw) := Metadata.splitNamespace stored
  let (name, arity) := Metadata.splitArity raw
  let fullName := qualify ns name
  match Builtin.first? arity [fullName] with
  | some type => return .builtin type none
  | none =>
    let atlas ← get
    let home := atlas.libraries.find? (·.module.assembly == assembly)
    match atlas.graph.lookup fullName arity (home.map (·.location)) with
    | some id => return .declared id [] none
    | none =>
      match home.bind fun library => (library.module.findTypeDef ns raw).map (library, ·) with
      | some (library, row) => return .declared (← define library row) [] none
      | none =>
        match ← defineFirst arity [fullName] with
        | some id => return .declared id [] none
        | none => throw (.unresolved fullName scope.requester scope.location)

/-- A nullable value type is used as the type it wraps. -/
def isNullable (m : Metadata.Module) (generic : Token) (args : List SigType) :
    Except Malformed Bool :=
  match args with
  | [_] => do return (← m.typeName generic) == some ("System", "Nullable`1")
  | _ => .ok false

mutual

/-- Resolve a type in a signature, where `token` resolves the tokens in it. References and
pointers are used as what they lead to. -/
def signatureWith (token : Token → Work Use) (m : Metadata.Module) (scope : Scope) :
    SigType → Work Use
  | .builtin type => return .builtin type none
  | .classType t | .valueType t => token t
  | .inst generic _ args => do
    let nullable ← check (isNullable m generic args)
    let uses ← signatureEach token m scope args
    match nullable, uses with
    | true, [use] => return use
    | _, uses => return (← token generic).withArgs uses
  | .typeParam number => numbered scope scope.typeParams .type number
  | .methodParam number => numbered scope scope.methodParams .method number
  | .vector element => return (← signatureWith token m scope element).wrapRank 1
  | .array element rank => return (← signatureWith token m scope element).wrapRank rank
  | .byRef inner | .pointer inner => signatureWith token m scope inner

def signatureEach (token : Token → Work Use) (m : Metadata.Module) (scope : Scope) :
    List SigType → Work (List Use)
  | [] => return []
  | arg :: args => do
    let use ← signatureWith token m scope arg
    let uses ← signatureEach token m scope args
    return use :: uses

end

/-- Resolve a token of a library. Specifications may lead to further ones, at most `fuel`
deep. -/
def tokenWith (found : Use → Work Unit) (library : Library) (scope : Scope) :
    Nat → Token → Work Use
  | _, .definition row => do
    let use := Use.declared (← define library row) [] none
    found use
    return use
  | _, .reference row => do
    let m := library.module
    let ref ← check (m.typeRef row)
    let ns ← check (m.strings.get ref.ns)
    let name ← check (m.strings.get ref.name)
    let assembly ← settle (m.referenceAssembly row)
    let use ← external scope (qualify ns name) assembly
    found use
    return use
  | fuel, .specification row => do
    let m := library.module
    let spec ← check (m.typeSpec row)
    let blob ← check (m.blobs.get spec.signature)
    let type ← check (SigType.ofBlob blob)
    match fuel with
    | 0 => throw .endless
    | fuel + 1 => signatureWith (tokenWith found library scope fuel) m scope type

/-- Resolve a token of a library. A chain over more specifications than there are passes one
twice and never ends. -/
def tokenFinding (found : Use → Work Unit) (library : Library) (scope : Scope) :
    Token → Work Use :=
  tokenWith found library scope library.module.typeSpecs.size

def signatureFinding (found : Use → Work Unit) (library : Library) (scope : Scope) :
    SigType → Work Use :=
  signatureWith (tokenFinding found library scope) library.module scope

/-- The declaration that the runtime's name of a type stands for: one that is registered, else
the definition in its module. -/
def runtimeDeclaration (home : Library) (stored fullName : String) (arity : Nat) : Work DeclId := do
  match (← graph).lookup fullName arity (some home.location) with
  | some id => return id
  | none =>
    match home.find? stored with
    | some row => define home row
    | none => throw (.unresolved stored stored home.location)

mutual

def runtimeFinding (found : Use → Work Unit) : RuntimeType → Work Use
  | .mk home stored args array =>
    let (ns, raw) := Metadata.splitNamespace stored
    let (name, arity) := Metadata.splitArity raw
    let fullName := qualify ns name
    match if args.isEmpty then Builtin.first? arity [fullName] else none with
    | some type => do
      let use := Use.builtin type array
      found use
      return use
    | none => do
      let id ← runtimeDeclaration home stored fullName arity
      let uses ← runtimeEachFinding found args
      let use := Use.declared id uses array
      found use
      return use

def runtimeEachFinding (found : Use → Work Unit) : List RuntimeType → Work (List Use)
  | [] => return []
  | type :: types => do
    let use ← runtimeFinding found type
    let uses ← runtimeEachFinding found types
    return use :: uses

end

end Work

end TypeAtlas
