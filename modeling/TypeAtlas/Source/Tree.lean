import TypeAtlas.Text.Blank
import TypeAtlas.TypeRef
import TypeAtlas.Fault

/-!
What is read from C# source: types, attributes, members, declarations and units. Code in
bodies and initialisers leaves no trace here.
-/

namespace TypeAtlas.Source

/-- A stretch of source, from `start` up to `stop`. -/
structure Span where
  start : Nat
  stop : Nat
deriving Repr, DecidableEq

def Span.covers (outer inner : Span) : Bool := outer.start ≤ inner.start && inner.stop ≤ outer.stop

/-- A type as written. -/
inductive TypeTree where
  | builtin (type : Builtin)
  | simple (name : String)
  /-- The arguments include comments, which then stand for types that cannot be read. -/
  | generic (name : String) (args : List TypeTree)
  /-- A name behind a qualifier, which is kept as its text. -/
  | qualified (qualifier : String) (last : TypeTree)
  | array (element : TypeTree) (rank : Nat)
  /-- A nullable, `ref` or `scoped` type. -/
  | wrapped (inner : TypeTree)
  | tuple (elements : List TypeTree)
  | unsupported (node text : String)
deriving Repr

/-- The text of a name without blanks and without a leading `global::`. -/
def cleanName (text : String) : String :=
  let cs := Text.compact text.toList
  String.ofList (if "global::".toList.isPrefixOf cs then cs.drop 8 else cs)

namespace TypeTree

mutual

/-- The reference a written type stands for. -/
def toRef (path : String) : TypeTree → Except Malformed TypeRef
  | .builtin type => .ok (.builtin type none)
  | .simple name => .ok (.named name [] none)
  | .generic name args => do
    let args ← toRefs path args
    pure (.named name args none)
  | .qualified qualifier last => do
    match ← toRef path last with
    | .named name args shape => pure (.named (qualify qualifier name) args shape)
    | ref => pure ref
  | .array element rank => do
    let ref ← toRef path element
    pure (ref.pushRank rank)
  | .wrapped inner => toRef path inner
  | .tuple elements => do
    let args ← toRefs path elements
    pure (.named "System.ValueTuple" args none)
  | .unsupported node text => .error (.unsupportedType node path text)

def toRefs (path : String) : List TypeTree → Except Malformed (List TypeRef)
  | [] => .ok []
  | tree :: trees => do
    let ref ← toRef path tree
    let refs ← toRefs path trees
    pure (ref :: refs)

end

end TypeTree

/-- One attribute, without the brackets around it. -/
structure AttributeTree where
  span : Span
  text : String
  name : TypeTree
  nameText : String
  nameSpan : Span

/-- Attributes in one pair of brackets. -/
structure AttributeList where
  /-- What the attributes are for, if it is said. -/
  target : Option String
  attributes : List AttributeTree

structure ParameterTree where
  name : String
  type : Option TypeTree
  text : String

structure ConstraintTree where
  param : String
  types : List TypeTree

structure PropertyTree where
  span : Span
  text : String
  attributes : List AttributeList
  type : TypeTree
  name : String
  getter : Bool
  setter : Bool

structure MethodTree where
  span : Span
  text : String
  attributes : List AttributeList
  returns : TypeTree
  name : String
  typeParams : List String
  params : List ParameterTree
  constraints : List ConstraintTree

inductive MemberTree where
  | property (tree : PropertyTree)
  | method (tree : MethodTree)

/-- How a type declaration is written: the node it makes in the tree of its source. -/
inductive TypeNode where
  | classNode | interfaceNode | structNode | enumNode | recordNode | recordStructNode
deriving Repr, DecidableEq

def TypeNode.text : TypeNode → String
  | classNode => "class_declaration"
  | interfaceNode => "interface_declaration"
  | structNode => "struct_declaration"
  | enumNode => "enum_declaration"
  | recordNode => "record_declaration"
  | recordStructNode => "record_struct_declaration"

/-- What a node declares. A record shows in the words among its children whether it is a struct. -/
def TypeNode.declarationKind (words : List String) : TypeNode → Kind
  | classNode => .classType
  | interfaceNode => .interfaceType
  | structNode | recordStructNode => .structType
  | enumNode => .enumType
  | recordNode => if words.contains "struct" then .structType else .classType

structure DeclTree where
  span : Span
  text : String
  node : TypeNode
  /-- The words that say what is declared. -/
  words : List String
  attributes : List AttributeList
  name : String
  typeParams : List String
  constraints : List ConstraintTree
  bases : List TypeTree
  members : List MemberTree

def DeclTree.kind (tree : DeclTree) : Kind := tree.node.declarationKind tree.words

/-- An item of a compilation unit or of a namespace. -/
inductive Item where
  /-- A using directive as declarations see it; `none` for static ones. -/
  | using (directive : Option String)
  | namespaceBlock (name : String) (items : List Item)
  /-- The namespace of all that follows. -/
  | namespaceLine (name : String)
  | type (tree : DeclTree)
  | other

end TypeAtlas.Source
