import TypeAtlas.Source.Handle
import TypeAtlas.Proofs.Scanning
import TypeAtlas.Proofs.UnitLaws

/-!
Where the nodes of a text stand. In a tree whose nodes lie inside their parents, in order and without
overlap, the way from the root to the smallest node over a stretch passes every node with that stretch
(`NodeTree.locate_of_mem`). Tokens stand one behind the other, and a reader takes them in order; so the
declarations of a text do not overlap (`Document.apart_declarations`), and each is found by its kind and
its stretch (`Document.node?_of_mem`).
-/

namespace TypeAtlas.Source

variable {document : Document} {text : String} {placed : Placed}

/-! Trees of nodes. -/

namespace NodeTree

variable {part : NodeTree} {range : Span} {found : Node} {trees : List NodeTree}

mutual

/-- A tree and all trees inside it. -/
def parts : NodeTree → List NodeTree
  | node view children => node view children :: partsAmong children

def partsAmong : List NodeTree → List NodeTree
  | [] => []
  | tree :: trees => tree.parts ++ partsAmong trees

end

mutual

/-- No node is empty, and children lie inside their parent, in order and without overlap. -/
def isNested : NodeTree → Bool
  | node view children => view.span.start < view.span.stop && areNested view.span.start view.span.stop children

/-- Trees between two positions, one behind the other. -/
def areNested (lo hi : Nat) : List NodeTree → Bool
  | [] => true
  | tree :: trees => lo ≤ tree.view.span.start && tree.view.span.stop ≤ hi && tree.isNested &&
      areNested tree.view.span.stop hi trees

end

lemma mem_parts_iff {tree : NodeTree} : part ∈ tree.parts ↔ part = tree ∨ part ∈ partsAmong tree.children := by
  cases tree with
  | node view children =>
    rw [parts]
    exact List.mem_cons

lemma mem_parts_self (tree : NodeTree) : tree ∈ tree.parts := mem_parts_iff.mpr (.inl rfl)

lemma mem_partsAmong_iff : part ∈ partsAmong trees ↔ ∃ tree ∈ trees, part ∈ tree.parts := by
  induction trees with
  | nil => simp [partsAmong]
  | cons tree trees ih => simp [partsAmong, ih]

lemma spine_eq (range : Span) (tree : NodeTree) :
    tree.spine range = spineAmong range tree.children ++ [tree.view] := by
  cases tree with
  | node view children => rw [spine]; rfl

/-- The first tree that spans a stretch is the one to go into. -/
lemma spineAmong_append {before after : List NodeTree} {tree : NodeTree}
    (hbefore : ∀ other ∈ before, other.view.span.covers range = false) (htree : tree.view.span.covers range = true) :
    spineAmong range (before ++ tree :: after) = tree.spine range := by
  induction before with
  | nil => rw [List.nil_append, spineAmong, if_pos htree]
  | cons first before ih =>
    rw [List.cons_append, spineAmong, hbefore first List.mem_cons_self]
    exact ih (List.forall_mem_cons.mp hbefore).2

mutual

/-- The way down to the stretch of a node leads through that node. -/
lemma spine_of_mem : ∀ tree : NodeTree, tree.isNested = true → ∀ part ∈ tree.parts,
    tree.view.span.start ≤ part.view.span.start ∧ part.view.span.start < part.view.span.stop ∧
      part.view.span.stop ≤ tree.view.span.stop ∧
      ∃ outer, tree.spine part.view.span = part.spine part.view.span ++ outer
  | .node view children, h, part, hpart => by
    rw [isNested, Bool.and_eq_true, decide_eq_true_eq] at h
    rcases mem_parts_iff.mp hpart with rfl | hpart
    · exact ⟨Nat.le_refl _, h.1, Nat.le_refl _, [], (List.append_nil _).symm⟩
    · obtain ⟨hstart, hlt, hstop, outer, houter⟩ := spineAmong_of_mem children _ _ h.2 part hpart
      exact ⟨hstart, hlt, hstop, outer ++ [view], by rw [spine, houter, List.append_assoc]⟩

lemma spineAmong_of_mem : ∀ (trees : List NodeTree) (lo hi : Nat), areNested lo hi trees = true →
    ∀ part ∈ partsAmong trees, lo ≤ part.view.span.start ∧ part.view.span.start < part.view.span.stop ∧
      part.view.span.stop ≤ hi ∧ ∃ outer, spineAmong part.view.span trees = part.spine part.view.span ++ outer
  | [], _, _, _, _, hpart => nomatch hpart
  | tree :: trees, lo, hi, h, part, hpart => by
    simp only [areNested, Bool.and_eq_true, decide_eq_true_eq] at h
    obtain ⟨⟨⟨hlo, hhi⟩, hnested⟩, hrest⟩ := h
    rw [spineAmong, Span.covers]
    rcases List.mem_append.mp hpart with hpart | hpart
    · obtain ⟨hstart, hlt, hstop, outer, houter⟩ := spine_of_mem tree hnested part hpart
      refine ⟨by omega, hlt, by omega, outer, ?_⟩
      rw [if_pos (by simp only [Bool.and_eq_true, decide_eq_true_eq]; omega), houter]
    · obtain ⟨hstart, hlt, hstop, outer, houter⟩ := spineAmong_of_mem trees _ _ hrest part hpart
      have hordered := (spine_of_mem tree hnested tree tree.mem_parts_self).2.1
      refine ⟨by omega, hlt, hstop, outer, ?_⟩
      rw [if_neg (by simp only [Bool.and_eq_true, decide_eq_true_eq]; omega), houter]

end

mutual

lemma exists_of_mem_spine : ∀ tree : NodeTree, tree.view.span.covers range = true → found ∈ tree.spine range →
    ∃ inner ∈ tree.parts, inner.view = found ∧ inner.view.span.covers range = true
  | .node view children, htree, hnode => by
    rw [spine] at hnode
    rcases List.mem_append.mp hnode with hnode | hnode
    · obtain ⟨inner, hinner, hview⟩ := exists_of_mem_spineAmong children hnode
      exact ⟨inner, mem_parts_iff.mpr (.inr hinner), hview⟩
    · exact ⟨_, mem_parts_self _, (List.mem_singleton.mp hnode).symm, htree⟩

/-- On the way down to a stretch there are only nodes that span it. -/
lemma exists_of_mem_spineAmong : ∀ trees : List NodeTree, found ∈ spineAmong range trees →
    ∃ inner ∈ partsAmong trees, inner.view = found ∧ inner.view.span.covers range = true
  | [], hnode => nomatch hnode
  | tree :: trees, hnode => by
    rw [spineAmong] at hnode
    split at hnode
    next htree =>
      obtain ⟨inner, hinner, hview⟩ := exists_of_mem_spine tree htree hnode
      exact ⟨inner, List.mem_append_left _ hinner, hview⟩
    next =>
      obtain ⟨inner, hinner, hview⟩ := exists_of_mem_spineAmong trees hnode
      exact ⟨inner, List.mem_append_right _ hinner, hview⟩

end

/-- No node inside a tree that spans all of it has its kind. -/
def Foremost (tree : NodeTree) : Prop :=
  ∀ inner ∈ partsAmong tree.children, inner.view.span.covers tree.view.span = true → inner.view.kind ≠ tree.view.kind

/-- Going up from inside such a node comes to it first. -/
lemma Foremost.locate_eq {tree : NodeTree} (hpart : part.Foremost) {outer : List Node}
    (hspine : tree.spine part.view.span = part.spine part.view.span ++ outer) :
    tree.locate part.view.kind part.view.span = some part.view := by
  have hnone : (spineAmong part.view.span part.children).find? (·.kind == part.view.kind) = none := by
    refine List.find?_eq_none.mpr fun node hnode heq => ?_
    obtain ⟨inner, hinner, rfl, hcovers⟩ := exists_of_mem_spineAmong _ hnode
    exact hpart inner hinner hcovers (eq_of_beq heq)
  rw [locate, hspine, spine_eq, List.find?_append, List.find?_append, hnone]
  simp

end NodeTree

/-! Nodes of declarations. -/

/-- How far from the leaves a node can stand. -/
def NodeKind.level : NodeKind → Nat
  | other _ => 0
  | attributeNode => 1
  | propertyNode | methodNode => 2
  | typeNode _ => 3

namespace NodeTree

variable {part tree : NodeTree} {trees : List NodeTree} {n m : Nat}

/-- A tree in which the level falls from each node to those inside it, from at most `n` on. -/
def Falls (n : Nat) (tree : NodeTree) : Prop :=
  ∀ part ∈ tree.parts, part.view.kind.level ≤ n ∧
    ∀ inner ∈ partsAmong part.children, inner.view.kind.level < part.view.kind.level

lemma Falls.mono (h : tree.Falls n) (hle : n ≤ m) : tree.Falls m :=
  fun part hpart => ⟨Nat.le_trans (h part hpart).1 hle, (h part hpart).2⟩

lemma Falls.node {view : Node} (h : ∀ tree ∈ trees, tree.Falls n) (hview : view.kind.level = n + 1) :
    (NodeTree.node view trees).Falls (n + 1) := by
  have hinside : ∀ inner ∈ partsAmong trees, ∃ tree ∈ trees, inner ∈ tree.parts := fun _ => mem_partsAmong_iff.mp
  intro part hpart
  rcases mem_parts_iff.mp hpart with rfl | hpart
  · refine ⟨Nat.le_of_eq hview, fun inner hinner => ?_⟩
    obtain ⟨tree, htree, hinner⟩ := hinside inner hinner
    exact Nat.lt_of_le_of_lt (h tree htree inner hinner).1 (Nat.lt_of_lt_of_eq (Nat.lt_succ_self n) hview.symm)
  · obtain ⟨tree, htree, hpart⟩ := hinside part hpart
    exact (h tree htree).mono (Nat.le_succ n) part hpart

lemma Falls.foremost (h : tree.Falls n) (hpart : part ∈ tree.parts) : part.Foremost :=
  fun inner hinner _ hkind => Nat.ne_of_lt ((h part hpart).2 inner hinner) (congrArg NodeKind.level hkind)

lemma falls_attributeTrees (lists : List AttributeList) : ∀ tree ∈ attributeTrees lists, tree.Falls 1 := by
  intro tree htree
  obtain ⟨list, -, htree⟩ := List.mem_flatMap.mp htree
  obtain ⟨own, -, rfl⟩ := List.mem_map.mp htree
  refine Falls.node (fun name hname part hpart => ?_) rfl
  cases List.mem_singleton.mp hname
  cases List.mem_singleton.mp hpart
  exact ⟨Nat.le_refl 0, nofun⟩

lemma falls_member (member : MemberTree) : member.nodeTree.Falls 2 := by
  cases member with
  | property tree => exact .node (falls_attributeTrees tree.attributes) rfl
  | method tree => exact .node (falls_attributeTrees tree.attributes) rfl

lemma falls_declaration (tree : DeclTree) : tree.nodeTree.Falls 3 := by
  refine .node (fun inner hinner => ?_) rfl
  rcases List.mem_append.mp hinner with hinner | hinner
  · exact (falls_attributeTrees tree.attributes inner hinner).mono (by decide)
  · obtain ⟨member, -, rfl⟩ := List.mem_map.mp hinner
    exact falls_member member

end NodeTree

/-- Tokens behind a position, one after the other, each with its notes between it and the one before. -/
def Follow : Nat → List Token → Prop
  | _, [] => True
  | stop, token :: rest => stop ≤ token.start ∧ (token.kind = .word → token.start < token.stop) ∧
      (∀ note ∈ token.notes, stop ≤ note.start ∧ note.start ≤ token.start) ∧ Follow token.stop rest

lemma Follow.gather {lo position : Nat} {gap : List Char} {notes : List Note} {pieces : List Piece}
    (hlo : lo ≤ position) (hnotes : ∀ note ∈ notes, lo ≤ note.start ∧ note.start ≤ position)
    (hwords : ∀ text, .word text ∈ pieces → text ≠ []) : Follow lo (Source.gather position gap notes pieces) := by
  induction pieces generalizing lo position gap notes with
  | nil => trivial
  | cons piece pieces ih =>
    have hwords' : ∀ text, .word text ∈ pieces → text ≠ [] := fun text htext =>
      hwords text (List.mem_cons_of_mem piece htext)
    have hnotes' : ∀ note ∈ notes, lo ≤ note.start ∧ note.start ≤ position + piece.text.length := fun note hnote =>
      (hnotes note hnote).imp_right fun hle => Nat.le_add_right_of_le hle
    have hrest (text : List Char) :
        Follow (position + (String.ofList text).length) (Source.gather (position + text.length) [] [] pieces) := by
      rw [String.length_ofList]
      exact ih (Nat.le_refl _) (fun _ hnote => nomatch hnote) hwords'
    cases piece with
    | blank text => exact ih (Nat.le_add_right_of_le hlo) hnotes' hwords'
    | note node text =>
      refine ih (Nat.le_add_right_of_le hlo) (fun note hnote => ?_) hwords'
      rcases List.mem_append.mp hnote with hnote | hnote
      · exact hnotes' note hnote
      · cases List.mem_singleton.mp hnote
        exact ⟨hlo, Nat.le_add_right _ _⟩
    | word text =>
      refine ⟨hlo, fun _ => ?_, hnotes, hrest text⟩
      have hlength := List.length_pos_iff.mpr (hwords text List.mem_cons_self)
      rw [Token.stop, String.length_ofList]
      exact Nat.lt_add_of_pos_right hlength
    | literal text => exact ⟨hlo, nofun, hnotes, hrest text⟩
    | mark text => exact ⟨hlo, nofun, hnotes, hrest text⟩

lemma Follow.tokenize {tokens : List Token} (h : Source.tokenize text = some tokens) : Follow 0 tokens := by
  obtain ⟨pieces, hpieces, rfl⟩ := Option.map_eq_some_iff.mp h
  exact .gather (Nat.le_refl 0) (fun _ hnote => nomatch hnote) fun text => Piece.ne_nil_of_mem_ofText hpieces

lemma Follow.start_le {stop : Nat} {first : Token} {rest : List Token} (h : Follow stop (first :: rest)) :
    ∀ token ∈ first :: rest, first.start ≤ token.start := by
  induction rest generalizing stop first with
  | nil => exact fun token htoken => Nat.le_of_eq (congrArg Token.start (List.mem_singleton.mp htoken).symm)
  | cons second rest ih =>
    intro token htoken
    rcases List.mem_cons.mp htoken with rfl | htoken
    · exact Nat.le_refl _
    · have hsecond := ih h.2.2.2 token htoken
      have hnext : first.stop ≤ second.start := h.2.2.2.1
      rw [Token.stop] at hnext
      omega

/-- What reading keeps of where the cursor stands: it does not go back behind `lo`, and all tokens ahead
begin behind `front`. -/
def Law.following (lo front : Nat) : Law :=
  .ofTokens (fun rest stop => lo ≤ stop ∧ Follow stop rest ∧ ∀ token ∈ rest, front ≤ token.start) (by
    rintro token rest stop ⟨hlo, ⟨hstart, -, -, hrest⟩, hfront⟩
    refine ⟨?_, hrest, (List.forall_mem_cons.mp hfront).2⟩
    rw [Token.stop]
    omega)

/-! Declarations that are apart. -/

/-- Plain declarations between two positions, none of them empty, one behind the other. -/
structure Apart (lo hi : Nat) (trees : List DeclTree) : Prop where
  le : lo ≤ hi
  inside : ∀ tree ∈ trees, lo ≤ tree.span.start ∧ tree.span.start < tree.span.stop ∧ tree.span.stop ≤ hi
  pairwise : trees.Pairwise fun first second => first.span.stop ≤ second.span.start
  plain : ∀ tree ∈ trees, tree.Plain

namespace Apart

variable {lo mid hi : Nat} {trees more : List DeclTree}

lemma nil (h : lo ≤ hi) : Apart lo hi [] := ⟨h, nofun, .nil, nofun⟩

lemma append (h : Apart lo mid trees) (hmore : Apart mid hi more) : Apart lo hi (trees ++ more) := by
  refine ⟨Nat.le_trans h.le hmore.le, fun tree htree => ?_, ?_, List.forall_mem_append.mpr ⟨h.plain, hmore.plain⟩⟩
  · have hle := h.le
    have hle' := hmore.le
    rcases List.mem_append.mp htree with htree | htree
    · have htree := h.inside tree htree
      omega
    · have htree := hmore.inside tree htree
      omega
  · refine List.pairwise_append.mpr ⟨h.pairwise, hmore.pairwise, fun first hfirst second hsecond => ?_⟩
    exact Nat.le_trans (h.inside first hfirst).2.2 (hmore.inside second hsecond).1

/-- The way down to the stretch of one of them goes into it. -/
lemma spineAmong_eq (h : Apart lo hi trees) {tree : DeclTree} (htree : tree ∈ trees) :
    NodeTree.spineAmong tree.span (trees.map DeclTree.nodeTree) = tree.nodeTree.spine tree.span := by
  obtain ⟨-, hlt, -⟩ := h.inside tree htree
  obtain ⟨before, after, rfl⟩ := List.append_of_mem htree
  rw [List.map_append, List.map_cons]
  refine NodeTree.spineAmong_append (fun other hother => ?_) ?_
  · obtain ⟨first, hfirst, rfl⟩ := List.mem_map.mp hother
    have hle : first.span.stop ≤ tree.span.start :=
      (List.pairwise_append.mp h.pairwise).2.2 first hfirst tree List.mem_cons_self
    exact Bool.and_eq_false_imp.mpr fun _ => decide_eq_false (Nat.not_le.mpr (Nat.lt_of_le_of_lt hle hlt))
  · simp [DeclTree.nodeTree, NodeTree.view, Node.span, Span.covers]

end Apart

namespace Reader

variable {α β : Type} {p : Reader α} {P : α → Prop} {R : α → List DeclTree → Prop} {S : β → List DeclTree → Prop}
  {k : α → Reader β} {c c' : Cursor} {xs : List α} {q : Reader (α × String × Span)} {x : α}

/-! Positions that readers reach. -/

/-- The cursor moves forward only. -/
def Steady (p : Reader α) : Prop := ∀ lo front, Keeps (Law.following lo front) p

lemma Steady.moves (h : Steady p) (hc : Follow c.stop c.rest) (hrun : p.run c = some (x, c')) :
    c.stop ≤ c'.stop ∧ Follow c'.stop c'.rest := by
  obtain ⟨-, hle, hfollow, -⟩ := h c.stop 0 c x c' ⟨Nat.le_refl _, hc, fun _ _ => Nat.zero_le _⟩ hrun
  exact ⟨hle, hfollow⟩

/-- The reader goes behind the beginning of the first token. -/
def Reaches (p : Reader α) : Prop :=
  ∀ front c x c', (Law.following 0 front).Holds c → p.run c = some (x, c') → front < c'.stop

namespace Reaches

lemma after (hp : ∀ {law}, Keeps law p) (hk : ∀ x, Reaches (k x)) : Reaches (p >>= k) := by
  intro front c y c' hc hrun
  obtain ⟨x, mid, hfirst, hsecond⟩ := exists_of_run_bind hrun
  exact hk x front mid y c' (hp c x mid hc hfirst).2 hsecond

lemma before (hp : Reaches p) (hkeeps : ∀ {law}, Keeps law p) (hk : ∀ x, Steady (k x)) : Reaches (p >>= k) := by
  intro front c y c' hc hrun
  obtain ⟨x, mid, hfirst, hsecond⟩ := exists_of_run_bind hrun
  obtain ⟨-, -, hfollow, -⟩ := hkeeps c x mid hc hfirst
  exact Nat.lt_of_lt_of_le (hp front c x mid hc hfirst) ((hk x).moves hfollow hsecond).1

end Reaches

lemma nextIf_reaches {test : Token → Bool} (htest : ∀ token, test token = true → token.kind = .word) :
    Reaches (nextIf test) := by
  rintro front ⟨rest, stop, declared⟩ token c' ⟨-, hfollow, hfront⟩ hrun
  obtain ⟨rest, rfl, hpasses, hstop⟩ := exists_of_run_nextIf hrun
  rw [hstop]
  exact Nat.lt_of_le_of_lt (hfront token List.mem_cons_self) (hfollow.2.1 (htest token hpasses))

/-! Declarations that readers give. -/

/-- What the reader gives holds declarations, told by `R`, that are apart in the stretch it takes. -/
def Lays (p : Reader α) (R : α → List DeclTree → Prop) : Prop :=
  ∀ c x c', Follow c.stop c.rest → p.run c = some (x, c') →
    Follow c'.stop c'.rest ∧ ∃ own, R x own ∧ Apart c.stop c'.stop own

namespace Lays

lemma plain (h : ∀ lo front, Gives (Law.following lo front) p P) : Lays p fun x own => P x ∧ own = [] := by
  intro c x c' hc hrun
  have hsteady : Steady p := fun lo front => (h lo front).keeps
  obtain ⟨hle, hfollow⟩ := hsteady.moves hc hrun
  exact ⟨hfollow, [], ⟨(h 0 0 c x c' ⟨Nat.zero_le _, hc, fun _ _ => Nat.zero_le _⟩ hrun).1, rfl⟩, .nil hle⟩

lemma pure {x : α} (h : R x []) : Lays (pure x) R := by
  rintro c y c' hc ⟨⟩
  exact ⟨hc, [], h, .nil (Nat.le_refl _)⟩

lemma failure : Lays failure R := by
  rintro c y c' hc ⟨⟩

lemma bind (h : Lays p R) (hk : ∀ x own, R x own → Lays (k x) fun y more => S y (own ++ more)) :
    Lays (p >>= k) S := by
  intro c y c' hc hrun
  obtain ⟨x, mid, hfirst, hsecond⟩ := exists_of_run_bind hrun
  obtain ⟨hmid, own, hown, hapart⟩ := h c x mid hc hfirst
  obtain ⟨hfollow, more, hmore, hapart'⟩ := hk x own hown mid y c' hmid hsecond
  exact ⟨hfollow, own ++ more, hmore, hapart.append hapart'⟩

/-- Behind a reader that gives no declarations. -/
lemma after (hp : ∀ {law}, Keeps law p) (hk : ∀ x, Lays (k x) S) : Lays (p >>= k) S := by
  refine (plain fun _ _ => hp).bind fun x own hown => ?_
  obtain ⟨-, rfl⟩ := hown
  exact hk x

lemma imp {Q : α → List DeclTree → Prop} (h : Lays p R) (hpost : ∀ x own, R x own → Q x own) : Lays p Q := by
  intro c x c' hc hrun
  obtain ⟨hfollow, own, hown, hapart⟩ := h c x c' hc hrun
  exact ⟨hfollow, own, hpost x own hown, hapart⟩

lemma orElse {q : Unit → Reader α} (hp : Lays p R) (hq : Lays (q ()) R) : Lays (HOrElse.hOrElse p q) R := by
  intro c x c' hc hrun
  rcases run_or_of_run_orElse hrun with hrun | hrun
  · exact hp c x c' hc hrun
  · exact hq c x c' hc hrun

lemma optional (h : Lays p R) : Lays (Reader.optional p) fun found own => found.elim (own = []) (R · own) := by
  refine .orElse ?_ (.pure rfl)
  intro c found c' hc hrun
  rw [StateT.run_map] at hrun
  obtain ⟨⟨x, mid⟩, hfirst, ⟨⟩⟩ := Option.map_eq_some_iff.mp hrun
  exact h c x mid hc hfirst

end Lays

/-- The declarations of some results, one after the other. -/
def Each (R : α → List DeclTree → Prop) (xs : List α) (own : List DeclTree) : Prop :=
  ∃ owns, List.Forall₂ R xs owns ∧ own = owns.flatten

lemma Each.cons {first rest : List DeclTree} (hx : R x first) (hxs : Each R xs rest) :
    Each R (x :: xs) (first ++ rest) := by
  obtain ⟨owns, howns, rfl⟩ := hxs
  exact ⟨first :: owns, .cons hx howns, rfl⟩

lemma Lays.upTo (h : Lays p R) (n : Nat) : Lays (Reader.upTo p n) (Each R) := by
  induction n with
  | zero => exact .pure ⟨[], .nil, rfl⟩
  | succ n ih =>
    refine h.optional.bind fun found own hown => ?_
    cases found with
    | none =>
      obtain rfl : own = [] := hown
      exact .pure ⟨[], .nil, rfl⟩
    | some x =>
      refine ih.bind fun xs rest hrest => .pure ?_
      rw [List.append_nil]
      exact .cons hown hrest

lemma Lays.many (h : Lays p R) : Lays (many p) (Each R) := .after .get fun _ => h.upTo _

/-! The stretch of a declaration. -/

/-- A stretch from the first token or a note in front of that on, up to where the reader ends. -/
lemma Reaches.span (h : Reaches p) {span : Span} (hc : Follow c.stop c.rest) (hrun : p.run c = some (x, c'))
    (hstop : span.stop = c'.stop)
    (hstart : ∀ token ∈ c.rest.head?, span.start = token.start ∨ ∃ note ∈ token.notes, span.start = note.start) :
    c.stop ≤ span.start ∧ span.start < span.stop ∧ span.stop = c'.stop := by
  rw [hstop]
  obtain ⟨rest, stop, declared⟩ := c
  cases rest with
  | nil => exact absurd (h c'.stop _ _ _ ⟨Nat.zero_le _, hc, nofun⟩ hrun) (Nat.lt_irrefl _)
  | cons first rest =>
    have hlt := h first.start _ _ _ ⟨Nat.zero_le _, hc, hc.start_le⟩ hrun
    obtain ⟨hfirst, -, hnotes, -⟩ := hc
    rcases hstart first rfl with hstart | ⟨note, hnote, hstart⟩
    · rw [hstart]
      exact ⟨hfirst, hlt, rfl⟩
    · have hnote := hnotes note hnote
      rw [hstart]
      exact ⟨hnote.1, Nat.lt_of_le_of_lt hnote.2 hlt, rfl⟩

variable {g : Grammar}

/-- The declarations of an item, in whatever namespace it stands. -/
def Laid (item : Item) (own : List DeclTree) : Prop :=
  ∀ ns usings, (item.placed ns usings).1.map (·.tree) = own

lemma Each.placeItems {items : List Item} {own : List DeclTree} (h : Each Laid items own) (ns : String)
    (usings : List String) : (placeItems ns usings items).map (·.tree) = own := by
  obtain ⟨owns, howns, rfl⟩ := h
  induction howns generalizing ns with
  | nil => rfl
  | cons hfirst _ ih => rw [Source.placeItems, List.map_append, hfirst, ih, List.flatten_cons]

/-- An item without declarations. -/
lemma Lays.ofItem {p : Reader Item} (h : ∀ law, Gives law p Item.IsBare) : Lays p Laid := by
  refine (Lays.plain fun lo front => h _).imp fun item own hown ns usings => ?_
  rw [hown.2, hown.1]
  rfl

lemma typeKeyword_reaches : Reaches typeKeyword := by
  refine .after (.optional ?_) fun _ => ?_
  · grind
  · refine .before (nextIf_reaches fun _ htest => eq_of_beq htest) (nextIf_keeps _) fun token _ _ => ?_
    grind

variable (hg : ∀ law, g.Keeps law)

include hg

lemma typeDecl_lays (depth : Nat) : Lays (typeDecl g (typeBody g depth)) fun tree own => own = [tree] := by
  intro c tree c' hc hrun
  obtain ⟨⟨make, text, span⟩, mid, hframe, ⟨⟩⟩ := exists_of_run_bind hrun
  have hbody := typeBody_keeps (hg (.following c.stop 0)) depth
  have hreach : Reaches (typeDraft g (typeBody g depth)) := by
    refine .after (attributeLists_keeps (hg _)) fun attributes => .after (.many modifier_keeps) fun _ => ?_
    refine .before typeKeyword_reaches typeKeyword_keeps fun keywords lo front => ?_
    have hkeeps := hg (Law.following lo front)
    have hbody := typeBody_keeps hkeeps depth
    grind
  obtain ⟨hrun, hstop, hstart⟩ := exists_of_run_withDeclText hframe
  obtain ⟨hmake, -, hfollow, -⟩ := typeDraft_gives (hg _) hbody c make c' ⟨Nat.le_refl _, hc, fun _ _ => Nat.zero_le _⟩ hrun
  obtain ⟨hlo, hlt, hhi⟩ := hreach.span hc hrun hstop hstart
  rw [← (hmake text span).1] at hlo hlt hhi
  exact ⟨hfollow, [_], rfl, by omega, List.forall_mem_singleton.mpr ⟨hlo, hlt, Nat.le_of_eq hhi⟩,
    List.pairwise_singleton _ _, List.forall_mem_singleton.mpr (hmake text span).2⟩

/-! Units. -/

lemma typeItem_lays (depth : Nat) : Lays (typeItem g depth) Laid := by
  refine (typeDecl_lays hg depth).bind fun tree own hown => .pure fun ns usings => ?_
  rw [hown]
  rfl

lemma namespaceItem_lays (depth : Nat) : Lays (namespaceItem g depth) Laid := by
  induction depth with
  | zero => exact .failure
  | succ depth ih =>
    refine .after (namespaceName_keeps (hg _)) fun title => .after (mark_keeps _) fun _ => ?_
    have hitem : Lays (usingItem g <|> namespaceItem g depth <|> typeItem g depth <|>
        (member g depth >>= fun _ => Pure.pure Item.other) <|> externAlias) Laid :=
      .orElse (.ofItem fun _ => usingItem_gives (hg _)) <| .orElse ih <| .orElse (typeItem_lays hg depth) <|
        .orElse (.after (member_keeps (hg _) depth) fun _ => .pure fun _ _ => rfl) <|
          .ofItem fun _ => externAlias_gives
    refine hitem.many.bind fun items own hown => .after (mark_keeps _) fun _ => ?_
    refine .after closingSemicolon_keeps fun _ => .pure fun ns usings => ?_
    rw [List.append_nil]
    exact hown.placeItems _ _

lemma items_lays (depth : Nat) : Lays (items g depth) (Each Laid) := by
  have hitem : Lays (item g depth) Laid :=
    .orElse (.ofItem fun _ => externAlias_gives) <| .orElse (.ofItem fun _ => usingItem_gives (hg _)) <|
      .orElse (.ofItem fun _ => globalAttributes_gives (hg _)) <| .orElse (namespaceItem_lays hg depth) <|
        .orElse (.ofItem fun _ => namespaceLine_gives (hg _)) <| .orElse (typeItem_lays hg depth) <|
          .orElse (.ofItem fun _ => delegateItem_gives (hg _)) (.ofItem fun _ => statementItem_gives (hg _))
  refine hitem.many.bind fun items own hown => .after finish_keeps fun _ => .pure ?_
  rw [List.append_nil]
  exact hown

end Reader

/-- The declarations of a document that was read stand one behind the other. -/
lemma Document.apart_declarations (path text : String) :
    ∃ stop, Apart 0 stop ((Document.read path text).declarations.map (·.tree)) := by
  cases hread : (Document.read path text).items with
  | none =>
    refine ⟨0, ?_⟩
    rw [Document.declarations, hread]
    exact .nil (Nat.le_refl 0)
  | some items =>
    obtain ⟨⟨found, c⟩, hresult, ⟨⟩⟩ := Option.map_eq_some_iff.mp hread
    obtain ⟨tokens, htokens, hrun⟩ := Option.bind_eq_some_iff.mp hresult
    obtain ⟨-, own, hown, hapart⟩ := Reader.items_lays (fun _ => grammar_keeps _) _ _ _ _ (.tokenize htokens) hrun
    refine ⟨c.stop, ?_⟩
    rw [Document.declarations, hread, Option.getD_some, hown.placeItems]
    exact hapart

lemma Document.plain_of_mem {path : String} {placed : Placed} (h : placed ∈ (Document.read path text).declarations) :
    placed.tree.Plain := by
  obtain ⟨stop, hapart⟩ := Document.apart_declarations path text
  exact hapart.plain _ (List.mem_map_of_mem h)

/-! Handles. -/

lemma Handle.outcome_eq (handle : Handle) : handle.outcome =
    if handle.place.1.hasErrors then .malformed
    else match handle.place.1.nodeTree.locate handle.kind handle.place.2 with
      | some found => .found found
      | none => .missing := rfl

lemma Document.hasErrors_of_mem (h : placed ∈ document.declarations) :
    document.hasErrors = false := by
  rw [Document.hasErrors]
  cases hitems : document.items with
  | none =>
    rw [Document.declarations, hitems] at h
    cases h
  | some items => rfl

lemma Handle.node?_ofNode {node : Node} (herrors : document.hasErrors = false)
    (hlocate : document.nodeTree.locate node.kind node.span = some node) :
    (Handle.ofNode document node).node? = some node := by
  have houtcome : (Handle.ofNode document node).outcome = .found node := by
    rw [Handle.outcome_eq, Handle.ofNode, Handle.place, Handle.kind, herrors, hlocate]
    rfl
  rw [Handle.node?, houtcome]

/-- A declaration of a text that was read is found by its kind and its stretch. -/
lemma Document.node?_of_mem {path : String} (h : placed ∈ (Document.read path text).declarations) :
    (Handle.ofNode (.read path text) (.ofType placed.tree)).node? = some (.ofType placed.tree) := by
  obtain ⟨stop, hapart⟩ := Document.apart_declarations path text
  refine Handle.node?_ofNode (Document.hasErrors_of_mem h) ?_
  have hforemost := (NodeTree.falls_declaration placed.tree).foremost placed.tree.nodeTree.mem_parts_self
  have hspine := hapart.spineAmong_eq (List.mem_map_of_mem h)
  rw [List.map_map] at hspine
  exact hforemost.locate_eq ((NodeTree.spine_eq _ _).trans (congrArg (· ++ _) hspine))

end TypeAtlas.Source
