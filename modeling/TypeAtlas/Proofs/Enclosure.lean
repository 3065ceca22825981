import Mathlib.Data.List.Forall2
import TypeAtlas.Source.Unit

/-!
Namespaces and using directives of declarations. What was read of a text is a tree: a namespace
in braces holds items of its own, and a line with a namespace counts for the items behind it. A
path tells the place of an item in each container around it, from the unit on. Main statement: the
declarations of a unit are those that paths lead to, in the order of the paths; their namespaces
and directives are those on the way.
-/

namespace TypeAtlas.Source

variable {ns : String} {usings titles : List String} {path : List Nat} {item next : Item} {place : Nat}

namespace Item

/-- What a namespace in braces holds. -/
def inner : Item → List Item
  | .namespaceBlock _ items => items
  | _ => []

/-- The name that counts for what an item holds. -/
def around? : Item → Option String
  | .namespaceBlock name _ => some name
  | _ => none

/-- The name that counts for what follows an item. -/
def onward? : Item → Option String
  | .namespaceLine name => some name
  | _ => none

/-- What was read of a text, as a namespace without a name. -/
def unit (items : List Item) : Item := .namespaceBlock "" items

/-- The item that a path leads to. -/
def at? : Item → List Nat → Option Item
  | item, [] => some item
  | item, place :: path => item.inner[place]?.bind (·.at? path)

/-- The names on a path, the outermost first. -/
def names : Item → List Nat → List String
  | _, [] => []
  | item, place :: path => (item.inner.take place).filterMap onward? ++
      (item.inner[place]?).elim [] fun next => next.around?.toList ++ next.names path

/-- The directives of the containers on a path, those of the innermost first. -/
def directives : Item → List Nat → List String
  | _, [] => []
  | item, place :: path => (item.inner[place]?).elim [] (·.directives path) ++ usingsOf item.inner

mutual

/-- The paths from an item to its declarations. -/
def paths : Item → List (List Nat)
  | .namespaceBlock _ items => pathsFrom 0 items
  | .type _ => [[]]
  | .using _ | .namespaceLine _ | .other => []

def pathsFrom (place : Nat) : List Item → List (List Nat)
  | [] => []
  | item :: items => item.paths.map (place :: ·) ++ pathsFrom (place + 1) items

end

lemma mem_pathsFrom {items : List Item} {start : Nat} :
    path ∈ pathsFrom start items ↔
      ∃ place next rest, path = (start + place) :: rest ∧ items[place]? = some next ∧ rest ∈ next.paths := by
  induction items generalizing start with
  | nil => simp [pathsFrom]
  | cons item items ih =>
    rw [pathsFrom, List.mem_append, List.mem_map, ih]
    constructor
    · rintro (⟨rest, hrest, rfl⟩ | ⟨place, next, rest, rfl, hnext, hrest⟩)
      · exact ⟨0, item, rest, rfl, rfl, hrest⟩
      · exact ⟨place + 1, next, rest, by rw [Nat.add_right_comm, Nat.add_assoc], hnext, hrest⟩
    · rintro ⟨place, next, rest, rfl, hnext, hrest⟩
      cases place with
      | zero =>
        cases hnext
        exact .inl ⟨rest, hrest, rfl⟩
      | succ place => exact .inr ⟨place, next, rest, by rw [Nat.add_right_comm, Nat.add_assoc], hnext, hrest⟩

/-- The paths of an item are those that lead to declarations. -/
lemma mem_paths : path ∈ item.paths ↔ ∃ tree, item.at? path = some (.type tree) := by
  induction path generalizing item with
  | nil => cases item <;> simp [paths, at?, mem_pathsFrom]
  | cons place path ih =>
    have hstep : place :: path ∈ item.paths ↔ ∃ next, item.inner[place]? = some next ∧ path ∈ next.paths := by
      cases item <;> simp [paths, inner, mem_pathsFrom]
    rw [hstep, at?]
    cases item.inner[place]? <;> simp [ih]

mutual

lemma paths_sorted : ∀ item : Item, item.paths.Pairwise (· < ·)
  | .namespaceBlock _ items => by
    rw [paths]
    exact pathsFrom_sorted 0 items
  | .type _ => List.pairwise_singleton _ _
  | .using _ | .namespaceLine _ | .other => .nil

lemma pathsFrom_sorted (start : Nat) : ∀ items : List Item, (pathsFrom start items).Pairwise (· < ·)
  | [] => by
    rw [pathsFrom]
    exact .nil
  | item :: items => by
    rw [pathsFrom, List.pairwise_append, List.pairwise_map]
    refine ⟨(paths_sorted item).imp (List.cons_lt_cons_iff.mpr <| .inr ⟨rfl, ·⟩), pathsFrom_sorted _ items, ?_⟩
    intro first hfirst second hsecond
    obtain ⟨rest, _, rfl⟩ := List.mem_map.mp hfirst
    obtain ⟨place, _, _, rfl, _⟩ := mem_pathsFrom.mp hsecond
    exact List.cons_lt_cons_iff.mpr (.inl (by omega))

end

/-- A declaration stands at a path in an item whose content is in `ns` and sees `usings`. -/
def Leads (item : Item) (ns : String) (usings : List String) (path : List Nat) (placed : Placed) : Prop :=
  item.at? path = some (.type placed.tree) ∧ placed.ns = (item.names path).foldl qualify ns ∧
    placed.usings = item.directives path ++ usings

lemma Leads.step {placed : Placed} (hnext : item.inner[place]? = some next)
    (h : next.Leads (next.around?.toList.foldl qualify (((item.inner.take place).filterMap onward?).foldl qualify ns))
      (usingsOf item.inner ++ usings) path placed) : item.Leads ns usings (place :: path) placed := by
  obtain ⟨hat, hns, husings⟩ := h
  refine ⟨?_, ?_, ?_⟩
  · rw [at?, hnext, Option.bind_some, hat]
  · rw [hns, names, hnext, Option.elim_some, List.foldl_append, List.foldl_append]
  · rw [husings, directives, hnext, Option.elim_some, List.append_assoc]

lemma placed_onward (item : Item) (ns : String) (usings : List String) :
    (item.placed ns usings).2 = item.onward?.toList.foldl qualify ns := by
  cases item <;> simp [placed, onward?]

mutual

lemma placed_leads (ns : String) (usings : List String) : ∀ item : Item, List.Forall₂
    (item.Leads (item.around?.toList.foldl qualify ns) usings) item.paths (item.placed ns usings).1
  | .namespaceBlock name items => by
    rw [paths, placed]
    exact placeItems_leads (qualify ns name) usings (.namespaceBlock name items) [] items rfl
  | .type tree => by
    rw [paths, placed]
    exact .cons ⟨rfl, rfl, rfl⟩ .nil
  | .using _ | .namespaceLine _ | .other => by simp [paths, placed]

/-- What an item holds behind `before` is placed after the names of the lines there. -/
lemma placeItems_leads (ns : String) (usings : List String) (item : Item) (before : List Item) :
    ∀ items : List Item, item.inner = before ++ items →
      List.Forall₂ (item.Leads ns usings) (pathsFrom before.length items)
        (placeItems ((before.filterMap onward?).foldl qualify ns) (usingsOf item.inner ++ usings) items)
  | [], _ => by
    rw [pathsFrom, placeItems]
    exact .nil
  | next :: items, hinner => by
    rw [pathsFrom, placeItems]
    refine List.rel_append (List.forall₂_map_left_iff.mpr ?_) ?_
    · have hnext : item.inner[before.length]? = some next := by simp [hinner]
      refine (placed_leads _ _ next).imp fun path placed h => .step hnext ?_
      rwa [hinner, List.take_left, ← hinner]
    -- A line with a namespace joins those before the rest of the items.
    · have hrest := placeItems_leads ns usings item (before ++ [next]) items (by simp [hinner])
      rw [List.filterMap_append, List.foldl_append, List.length_append] at hrest
      rw [placed_onward]
      cases next <;> exact hrest

end

end Item

lemma foldl_qualify (hne : ns ≠ "") : titles.foldl qualify ns = Text.joinWith "." (ns :: titles) := by
  induction titles generalizing ns with
  | nil => rfl
  | cons title titles ih =>
    have hq : qualify ns title = ns ++ "." ++ title := by simp [qualify, hne]
    rw [List.foldl_cons, hq, ih (by simp)]
    cases titles <;> simp [Text.joinWith, String.append_assoc]

/-- Names in no namespace are joined, without empty ones at the front. -/
lemma foldl_qualify_empty : titles.foldl qualify "" = Text.joinWith "." (titles.dropWhile String.isEmpty) := by
  induction titles with
  | nil => rfl
  | cons title titles ih =>
    rw [List.foldl_cons, List.dropWhile_cons]
    split
    case isTrue h =>
      rw [String.isEmpty_iff.mp h]
      exact ih
    case isFalse h => exact foldl_qualify (fun hempty => h (String.isEmpty_iff.mpr hempty))

/-- The declarations of a text are exactly those that paths lead to, once each and in the order of
the paths. Their namespaces join the names on the way and their directives are those of the
containers on the way, the innermost first. Names and directives are as they were read: with the
comments inside of a name, and with a comment for the target that it follows. -/
theorem declarations_by_enclosure (path text : String) (items : List Item)
    (hread : (Document.read path text).items = some items) :
    ∃ places : List (List Nat), places.Pairwise (· < ·) ∧
      (∀ place, place ∈ places ↔ ∃ tree, (Item.unit items).at? place = some (.type tree)) ∧
      List.Forall₂ (fun place placed => (Item.unit items).at? place = some (.type placed.tree) ∧
        placed.ns = Text.joinWith "." (((Item.unit items).names place).dropWhile String.isEmpty) ∧
        placed.usings = (Item.unit items).directives place) places (Document.read path text).declarations := by
  refine ⟨(Item.unit items).paths, Item.paths_sorted _, fun _ => Item.mem_paths, ?_⟩
  have hleads := Item.placeItems_leads "" [] (.unit items) [] items rfl
  rw [List.append_nil] at hleads
  rw [Item.unit, Item.paths, Document.declarations, hread]
  refine hleads.imp fun place placed ⟨hat, hns, husings⟩ => ⟨hat, hns.trans foldl_qualify_empty, ?_⟩
  rw [husings, List.append_nil, Item.unit]

/-- A text with comments before the end of a directive and inside of a namespace's name. -/
def commented : Document := .read "Sample.cs"
  "using System /* base */; namespace Sample./* core */Core \x7b class Widget \x7b \x7d \x7d"

lemma commented_declarations : commented.declarations.map (fun placed => (placed.ns, placed.usings)) =
    [("Sample./*core*/Core", ["/*base*/"])] := by
  decide +kernel

theorem declarations_by_enclosure_commented : ∃ items, commented.items = some items ∧
    ∃ places : List (List Nat), places.length = 1 ∧
      ∀ place ∈ places, ∃ tree, (Item.unit items).at? place = some (.type tree) := by
  have hsome : commented.items.isSome = true := by decide +kernel
  obtain ⟨items, hread⟩ := Option.isSome_iff_exists.mp hsome
  obtain ⟨places, _, hmem, hplaces⟩ := declarations_by_enclosure _ _ items hread
  refine ⟨items, hread, places, ?_, fun place => (hmem place).mp⟩
  have hlength := congrArg List.length commented_declarations
  rw [List.length_map] at hlength
  exact hplaces.length_eq.trans hlength

/-- Comments count as parts of names and stand for targets. -/
theorem comments_taken_for_names :
    commented.declarations.map (fun placed => (placed.ns, placed.usings)) ≠ [("Sample.Core", ["System"])] := by
  rw [commented_declarations]
  decide

end TypeAtlas.Source
