import TypeAtlas.Source.Declaration

/-!
Compilation units. A document is a text with its path and, where the text is well-formed,
the items read from it: one error leaves nothing of it, also not what stands before the error. The
declarations of a unit come with their namespace and the using directives they see.
-/

namespace TypeAtlas.Source

namespace Reader

variable (g : Grammar)

/-- A type declaration. -/
def typeItem (depth : Nat) : Reader Item := do
  let tree ← typeDecl g (typeBody g depth)
  return .type tree

def usingItem : Reader Item := do return .using (← usingDirective g)

def delegateItem : Reader Item := do
  let _ ← attributeLists g
  let _ ← many modifier
  delegateMember g
  return .other

/-- The alias of another assembly. -/
def externAlias : Reader Item := do
  keyword "extern"
  keyword "alias"
  let _ ← name
  mark ";"
  return .other

/-- A namespace with its items in braces, nested at most `depth` deep. -/
def namespaceItem : Nat → Reader Item
  | 0 => failure
  | depth + 1 => do
    let title ← namespaceName g
    mark "\x7b"
    let items ← many (usingItem g <|> namespaceItem depth <|> typeItem g depth <|> (do
      let _ ← member g depth
      return .other) <|> externAlias)
    mark "\x7d"
    closingSemicolon
    return .namespaceBlock title items

/-- A namespace for the rest of the unit. -/
def namespaceLine : Reader Item := do
  let title ← namespaceName g
  mark ";"
  return .namespaceLine title

/-- Attributes of the whole assembly or module. -/
def globalAttributes : Reader Item := do
  mark "["
  keyword "assembly" <|> keyword "module"
  mark ":"
  let _ ← commaList1 (oneAttribute g)
  let _ ← markIf ","
  mark "]"
  return .other

/-- Words that begin an item other than a statement. -/
def itemWords : List String := ["class", "enum", "interface", "namespace", "record", "struct"]

/-- A statement outside of all types. -/
def statementItem : Reader Item := do
  if ← atAnyKeyword itemWords then failure
  g.statement
  return .other

/-- An item of a compilation unit. -/
def item (depth : Nat) : Reader Item :=
  externAlias <|> usingItem g <|> globalAttributes g <|> namespaceItem g depth <|> namespaceLine g <|>
    typeItem g depth <|> delegateItem g <|> statementItem g

/-- All items up to the end of the text. -/
def items (depth : Nat) : Reader (List Item) := do
  let items ← many (item g depth)
  finish
  return items

end Reader

/-- A text that was read as C#. -/
structure Document where
  path : String
  text : String
  /-- What was read, `none` where the text is not well-formed. -/
  items : Option (List Item)
  /-- The type of the first variable declared in the text. -/
  declared : Option TypeTree

/-- Read a text. Nothing nests deeper than there are tokens. -/
def Document.read (path text : String) : Document :=
  let result := do
    let tokens ← tokenize text
    let depth := tokens.length + 1
    (Reader.items (grammar depth) depth).run { rest := tokens }
  { path := path
    text := text
    items := result.map (·.1)
    declared := result.bind (·.2.declared) }

def Document.hasErrors (document : Document) : Bool := document.items.isNone

/-- A type declaration with what surrounds it. -/
structure Placed where
  ns : String
  usings : List String
  tree : DeclTree

def usingsOf (items : List Item) : List String :=
  items.filterMap fun
    | .using directive => directive
    | _ => none

mutual

/-- The declarations of one item, and the namespace of what follows it. -/
def Item.placed (ns : String) (usings : List String) : Item → List Placed × String
  | .namespaceBlock name items =>
    (placeItems (qualify ns name) (usingsOf items ++ usings) items, ns)
  | .namespaceLine name => ([], qualify ns name)
  | .type tree => ([⟨ns, usings, tree⟩], ns)
  | .using _ | .other => ([], ns)

/-- The declarations of items that stand in one container, whose using directives are
already among `usings`. -/
def placeItems (ns : String) (usings : List String) : List Item → List Placed
  | [] => []
  | item :: rest =>
    let (found, ns) := item.placed ns usings
    found ++ placeItems ns usings rest

end

/-- The declarations of a unit that are not nested in a type, in order. -/
def Document.declarations (document : Document) : List Placed :=
  let items := document.items.getD []
  placeItems "" (usingsOf items) items

end TypeAtlas.Source
