import TypeAtlas.Source.Unit

/-!
Handles to what stands in source. A handle leads into a document that was read, or holds a
snippet that is put into a small document of its own when it is looked at.
-/

namespace TypeAtlas.Source

/-- The kinds of nodes: those that handles lead to, and the others. -/
inductive NodeKind where
  | attributeNode
  | propertyNode
  | methodNode
  | typeNode (node : TypeNode)
  | other (text : String)
deriving Repr, DecidableEq

def NodeKind.text : NodeKind → String
  | attributeNode => "attribute"
  | propertyNode => "property_declaration"
  | methodNode => "method_declaration"
  | typeNode node => node.text
  | other text => text

inductive Node where
  | ofAttribute (tree : AttributeTree)
  | ofProperty (tree : PropertyTree)
  | ofMethod (tree : MethodTree)
  | ofType (tree : DeclTree)
  | ofOther (kind text : String) (span : Span)

namespace Node

def kind : Node → NodeKind
  | ofAttribute _ => .attributeNode
  | ofProperty _ => .propertyNode
  | ofMethod _ => .methodNode
  | ofType tree => .typeNode tree.node
  | ofOther kind .. => .other kind

def span : Node → Span
  | ofAttribute tree => tree.span
  | ofProperty tree => tree.span
  | ofMethod tree => tree.span
  | ofType tree => tree.span
  | ofOther _ _ span => span

def text : Node → String
  | ofAttribute tree => tree.text
  | ofProperty tree => tree.text
  | ofMethod tree => tree.text
  | ofType tree => tree.text
  | ofOther _ text _ => text

end Node

/-- A tree of nodes. -/
inductive NodeTree where
  | node (view : Node) (children : List NodeTree)

namespace NodeTree

def view : NodeTree → Node
  | node view _ => view

def children : NodeTree → List NodeTree
  | node _ children => children

mutual

/-- The smallest node that spans a stretch, then its parent, and so on up to the root. -/
def spine (range : Span) : NodeTree → List Node
  | node view children => spineAmong range children ++ [view]

def spineAmong (range : Span) : List NodeTree → List Node
  | [] => []
  | tree :: trees =>
    if tree.view.span.covers range then tree.spine range else spineAmong range trees

end

/-- The first node of a kind on the way up from the smallest one that spans a stretch. -/
def locate (tree : NodeTree) (kind : NodeKind) (range : Span) : Option Node :=
  (tree.spine range).find? (·.kind == kind)

end NodeTree

/-- The kind of node that a name makes. -/
def TypeTree.nodeKind : TypeTree → String
  | simple _ => "identifier"
  | generic .. => "generic_name"
  | _ => "qualified_name"

/-- An attribute around its name, which takes all of its stretch if there are no arguments. -/
def AttributeTree.nodeTree (tree : AttributeTree) : NodeTree :=
  .node (.ofAttribute tree) [.node (.ofOther tree.name.nodeKind tree.nameText tree.nameSpan) []]

def attributeTrees (lists : List AttributeList) : List NodeTree :=
  lists.flatMap fun list => list.attributes.map AttributeTree.nodeTree

def MemberTree.nodeTree : MemberTree → NodeTree
  | .property tree => .node (.ofProperty tree) (attributeTrees tree.attributes)
  | .method tree => .node (.ofMethod tree) (attributeTrees tree.attributes)

def DeclTree.nodeTree (tree : DeclTree) : NodeTree :=
  .node (.ofType tree) (attributeTrees tree.attributes ++ tree.members.map MemberTree.nodeTree)

def Document.nodeTree (document : Document) : NodeTree :=
  .node (.ofOther "compilation_unit" document.text ⟨0, document.text.length⟩)
    (document.declarations.map fun placed => placed.tree.nodeTree)

/-- Where a declaration, a member or an attribute stands. -/
inductive Handle where
  | written (document : Document) (kind : NodeKind) (span : Span)
  | synthesized (kind : NodeKind) (snippet : String)

namespace Handle

def kind : Handle → NodeKind
  | written _ kind _ => kind
  | synthesized kind _ => kind

def ofNode (document : Document) (node : Node) : Handle := .written document node.kind node.span

def text : Handle → String
  | written document _ span =>
    String.ofList ((document.text.toList.drop span.start).take (span.stop - span.start))
  | synthesized _ snippet => snippet

def isSynthesized : Handle → Bool
  | written .. => false
  | synthesized .. => true

/-- The type that surrounds a snippet that is no type itself. -/
def hostName : String := "__Synthesized"

/-- What stands before and behind a snippet in its document. -/
def surroundings : NodeKind → String × String
  | .attributeNode => ("[", "]\nclass " ++ hostName ++ " \x7b \x7d\n")
  | .propertyNode | .methodNode => ("class " ++ hostName ++ " \x7b\n", "\n\x7d\n")
  | .typeNode _ | .other _ => ("", "\n")

/-- The document behind the handle and the stretch of it that is meant. -/
def place : Handle → Document × Span
  | written document _ span => (document, span)
  | synthesized kind snippet =>
    let (before, after) := surroundings kind
    (Document.read "<synthesized>" (before ++ snippet ++ after),
      ⟨before.length, before.length + snippet.length⟩)

/-- What looking for a handle's node comes to. -/
inductive Outcome where
  | malformed
  | missing
  | found (node : Node)

def outcome (handle : Handle) : Outcome :=
  let (document, span) := handle.place
  if document.hasErrors then .malformed
  else match document.nodeTree.locate handle.kind span with
    | some node => .found node
    | none => .missing

def node? (handle : Handle) : Option Node :=
  match handle.outcome with
  | .found node => some node
  | .malformed | .missing => none

end Handle

end TypeAtlas.Source
