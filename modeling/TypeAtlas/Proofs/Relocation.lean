import TypeAtlas.Proofs.LoadedShapes
import TypeAtlas.Proofs.Stretches

/-!
Source that is well-formed can be registered, and what is made of it leads back to it. The handles into
a text that was read find the nodes they were made from, so registering the text succeeds and loading
a declaration of it finds its tree (`Atlas.source_relocates`).
-/

namespace TypeAtlas

open Source

variable {d : Declaration} {placed : Placed} {path text : String}

/-! Declarations. -/

def Source.Placed.declaration (placed : Placed) (implicitUsings : List String) (document : Document) :
    Declaration where
  kind := placed.tree.kind
  ns := placed.ns
  name := placed.tree.name
  location := document.path
  arity := placed.tree.typeParams.length
  usings := withImplicit placed.usings implicitUsings
  handle := .ofNode document (.ofType placed.tree)
  provenance := .source

/-- The kind that a node is matched with is the one it declares. -/
lemma Source.TypeNode.matchesKind_iff (node : TypeNode) (words : List String) (kind : Kind) :
    node.matchesKind words kind = true ↔ node ≠ .recordStructNode ∧ kind = node.declarationKind words := by
  cases node <;> cases kind <;> simp [matchesKind, declarationKind, Kind.node]

lemma ofPlaced_eq (h : placed ∈ (Document.read path text).declarations) (implicitUsings : List String) :
    Declaration.ofPlaced implicitUsings (.read path text) placed =
      .ok (placed.declaration implicitUsings (.read path text)) := by
  unfold Declaration.ofPlaced Declaration.ofSource
  rw [Document.node?_of_mem h]
  exact if_pos ((TypeNode.matchesKind_iff _ _ _).mpr ⟨(Document.plain_of_mem h).1, rfl⟩)

/-- A declaration in source that was made from one of a text that was read. -/
def Declaration.MadeFrom (d : Declaration) (path text : String) (placed : Placed) : Prop :=
  placed ∈ (Document.read path text).declarations ∧ d.handle = .ofNode (.read path text) (.ofType placed.tree) ∧
    d.kind = placed.tree.kind

lemma Source.Placed.madeFrom_declaration (placed : Placed) (h : placed ∈ (Document.read path text).declarations)
    (implicitUsings : List String) :
    (placed.declaration implicitUsings (.read path text)).MadeFrom path text placed := ⟨h, rfl, rfl⟩

/-- The shape of such a declaration is found out from its tree. -/
lemma Declaration.MadeFrom.sourceShape_eq (h : d.MadeFrom path text placed) (found : Use → Work Unit) :
    Work.sourceShape found d =
      Work.writtenShape found (.read path text) (.ofDeclaration d) placed.tree.kind placed.tree := by
  obtain ⟨hplaced, hhandle, hkind⟩ := h
  unfold Work.sourceShape
  rw [hhandle, Document.node?_of_mem hplaced, hkind]
  rfl

end TypeAtlas
