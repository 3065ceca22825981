import TypeAtlas.Source.Statement

/-!
Type declarations and their members. Properties and methods are kept; all other members
are read and dropped.
-/

namespace TypeAtlas.Source.Reader

variable (g : Grammar)

/-- Whether a conditional region holds nothing but attribute lists. Such a region opens
the declaration behind it. -/
def isAttributeRegion (note : Note) : Bool :=
  let inside := Text.trimChars (note.text.toList.dropWhile (· != '\n'))
  let listed := Text.trimChars (inside.take (inside.length - "#endif".length))
  let named := listed.drop 1 |>.dropWhile Text.isBlank |>.takeWhile Text.isAsciiLetter
  note.node == "preproc_if" && listed.head? == some '[' && listed.getLast? == some ']' &&
    String.ofList named != "assembly" && String.ofList named != "module"

/-- The result with its text, from the first attribute or modifier on. -/
def withDeclText {α : Type} (p : Reader α) : Reader (α × String × Span) := do
  let first := (← get).rest.head?
  let (x, text, span) ← withText p
  match first.bind fun token => (token.notes.find? isAttributeRegion).map fun note => (token, note) with
  | none => return (x, text, span)
  | some (token, note) =>
    let lead := token.gap.toList.drop (token.gap.length - (token.start - note.start))
    return (x, String.ofList lead ++ text, { span with start := note.start })

/-- A semicolon right behind a body belongs to the declaration. -/
def closingSemicolon : Reader Unit := do
  let _ ← adjacentMark ";"

def accessor : Reader String := do
  let _ ← attributeLists g
  let _ ← many modifier
  let word ← name
  functionBody g
  return word

def accessors : Reader (List String) := do
  mark "\x7b"
  let names ← many (accessor g)
  mark "\x7d"
  return names

/-- The interface in front of an explicitly implemented member. -/
def interfaceQualifier : Reader Unit := do
  let _ ← many do
    let _ ← name
    let _ ← optional (typeArguments g)
    mark "." <|> mark "::"

/-- What is read of a member before its place in the text is known. -/
inductive MemberDraft where
  | property (attributes : List AttributeList) (type : TypeTree) (name : String)
      (getter setter : Bool)
  | method (attributes : List AttributeList) (returns : TypeTree) (name : String)
      (typeParams : List String) (params : List ParameterTree) (constraints : List ConstraintTree)
  | other

def MemberDraft.place (text : String) (span : Span) : MemberDraft → Option MemberTree
  | property attributes type name getter setter =>
    some (.property ⟨span, text, attributes, type, name, getter, setter⟩)
  | method attributes returns name typeParams params constraints =>
    some (.method ⟨span, text, attributes, returns, name, typeParams, params, constraints⟩)
  | other => none

def propertyRest (attributes : List AttributeList) (type : TypeTree) (name : String) :
    Reader MemberDraft := do
  if ← markIf "=>" then
    g.expression
    mark ";"
    return .property attributes type name true false
  else
    let names ← accessors g
    let _ ← optional do
      mark "="
      g.initialiser <|> g.expression
      mark ";"
    return .property attributes type name (names.contains "get")
      (names.contains "set" || names.contains "init")

def methodRest (attributes : List AttributeList) (returns : TypeTree) (name : String) :
    Reader MemberDraft := do
  let typeParams := (← optional (typeParams g)).getD []
  let params ← params g
  let constraints ← many (constraints g)
  functionBody g
  return .method attributes returns name typeParams params constraints

/-- Words that stand behind a type for a member without a name. -/
def namelessWords : List String := ["operator", "this"]

/-- Words that begin a member of their own, and so no type. -/
def memberWords : List String :=
  ["class", "delegate", "enum", "event", "explicit", "implicit", "interface", "namespace", "struct", "using"]

/-- A property or a method. -/
def typedMember (attributes : List AttributeList) : Reader MemberDraft := do
  if (← atAnyKeyword memberWords) && !(← ahead [isWord "delegate", isMark "*"]) then failure
  let type ← g.type
  interfaceQualifier g
  if ← atAnyKeyword namelessWords then failure
  let word ← name
  if (← atMark "(") || (← atMark "<") then methodRest g attributes type word
  else propertyRest g attributes type word

/-- The operators of one token that a type may declare. -/
def overloadable : List String :=
  ["!", "~", "++", "--", "+", "-", "*", "/", "%", "^", "|", "&", "==", "!="]

def operatorSymbol : Reader Unit := do
  let _ ← keywordIf "checked"
  if ← atAnyKeyword ["true", "false"] then
    let _ ← next
  else
    let token ← nextIf (·.kind == .mark)
    if token.text == "<" || token.text == ">" then
      let _ ← adjacentMark token.text
      let _ ← adjacentMark token.text
      let _ ← adjacentMark "="
    else if !overloadable.contains token.text then failure

/-- An operator or a conversion. -/
def operatorMember : Reader Unit := do
  if ← atAnyKeyword ["implicit", "explicit"] then
    let _ ← next
    interfaceQualifier g
    keyword "operator"
    let _ ← keywordIf "checked"
    let _ ← g.type
  else
    let _ ← g.type
    interfaceQualifier g
    keyword "operator"
    operatorSymbol
  let _ ← params g
  functionBody g

def indexer : Reader Unit := do
  let _ ← g.type
  interfaceQualifier g
  keyword "this"
  mark "["
  let _ ← commaList (param g)
  mark "]"
  if ← markIf "=>" then
    g.expression
    mark ";"
  else
    let _ ← accessors g

/-- A constructor, with the one it calls first. -/
def constructor : Reader Unit := do
  let _ ← name
  let _ ← params g
  let _ ← optional do
    mark ":"
    keyword "base" <|> keyword "this"
    arguments g "(" ")"
  functionBody g

def destructor : Reader Unit := do
  mark "~"
  let _ ← name
  mark "("
  mark ")"
  functionBody g

/-- An event, declared like variables or with accessors. -/
def eventMember : Reader Unit := do
  keyword "event"
  (do
    typedNames g []
    mark ";") <|> (do
    let _ ← g.type
    interfaceQualifier g
    let _ ← name
    let _ ← accessors g)

def delegateMember : Reader Unit := do
  keyword "delegate"
  if ← atMark "*" then failure
  let _ ← g.type
  let _ ← name
  let _ ← optional (typeParams g)
  let _ ← params g
  let _ ← many (constraints g)
  mark ";"

def fields : Reader Unit := do
  if (← atAnyKeyword memberWords) && !(← ahead [isWord "delegate", isMark "*"]) then failure
  typedNames g namelessWords
  mark ";"

/-- What stands between the name of a type and its body. -/
inductive HeaderPart where
  | typeParams (names : List String)
  | params
  | bases (types : List TypeTree)
  | constraints (clause : ConstraintTree)

/-- A base type with the notes before it and, where the list goes on, behind it. Arguments
for its constructor are dropped. -/
def baseEntry : Reader (List TypeTree) := do
  let before ← noteTypes
  let type ← g.type
  let between ← if ← atMark "(" then noteTypes else pure []
  let _ ← optional (arguments g "(" ")")
  let after ← if ← atMark "," then noteTypes else pure []
  return before ++ [type] ++ between ++ after

def baseList : Reader (List TypeTree) := do
  mark ":"
  let entries ← commaList1 (baseEntry g)
  return entries.flatten

/-- A part of the header. Only some kinds of types have parameters of their own. -/
def headerPart (hasParams : Bool) : Reader HeaderPart := do
  if ← atMark "<" then return .typeParams (← typeParams g)
  else if ← atMark ":" then return .bases (← baseList g)
  else if (← atMark "(") && hasParams then
    let _ ← params g
    return .params
  else return .constraints (← constraints g)

def HeaderPart.names (parts : List HeaderPart) : List String :=
  (parts.findSome? fun
    | .typeParams names => some names
    | _ => none).getD []

def HeaderPart.baseTypes (parts : List HeaderPart) : List TypeTree :=
  (parts.findSome? fun
    | .bases types => some types
    | _ => none).getD []

def HeaderPart.clauses (parts : List HeaderPart) : List ConstraintTree :=
  parts.filterMap fun
    | .constraints clause => some clause
    | _ => none

/-- A member of an enumeration. -/
def enumMember : Reader Unit := do
  let _ ← attributeLists g
  let _ ← name
  let _ ← optional do
    mark "="
    g.expression

/-- An enumeration behind its keyword. -/
def enumRest : Reader String := do
  let word ← name
  let _ ← optional (baseList g)
  mark "\x7b"
  let _ ← commaList (enumMember g)
  let _ ← markIf ","
  mark "\x7d"
  closingSemicolon
  return word

/-- The keywords of a type declaration, with the node it makes. -/
def typeKeyword : Reader (TypeNode × List String) := do
  let _ ← optional do
    keyword "ref"
    let _ ← keywordIf "partial"
    if ← atKeyword "struct" then pure () else failure
  let token ← nextIf (·.kind == .word)
  match token.text with
  | "class" => return (.classNode, ["class"])
  | "struct" => return (.structNode, ["struct"])
  | "interface" => return (.interfaceNode, ["interface"])
  | "enum" => return (.enumNode, ["enum"])
  | "record" =>
    let following := (← get).rest
    if ← atKeyword "struct" then
      let _ ← next
      return (.recordNode, ["record", "struct"])
    else if (← atKeyword "class") && (following.drop 1).head?.any (·.kind == .word) then
      let _ ← next
      return (.recordNode, ["record", "class"])
    else if (← peek?).any (·.kind == .word) then return (.recordNode, ["record"])
    else failure
  | _ => failure

/-- A type declaration before its place in the text is known, its body being read by `body`. -/
def typeDraft (body : Reader (List MemberTree)) : Reader (String → Span → DeclTree) := do
  let attributes ← attributeLists g
  let _ ← many modifier
  let (node, words) ← typeKeyword
  if node = .enumNode then
    let word ← enumRest g
    return fun text span => ⟨span, text, node, words, attributes, word, [], [], [], []⟩
  else
    let word ← name
    let parts ← many (headerPart g (node != .interfaceNode))
    let members ← (do
      mark ";"
      return []) <|> (do
      let members ← body
      closingSemicolon
      return members)
    return fun text span =>
      ⟨span, text, node, words, attributes, word, HeaderPart.names parts, HeaderPart.clauses parts,
        HeaderPart.baseTypes parts, members⟩

def typeDecl (body : Reader (List MemberTree)) : Reader DeclTree := do
  let (make, text, span) ← withDeclText (typeDraft g body)
  return make text span

/-- The text of what a directive names: any type behind an alias, and a name without one. -/
def directiveTarget (isAlias : Bool) : Reader String := do
  if !isAlias then
    let _ ← keywordIf "unsafe"
  let (_, text, _) ← withText (if isAlias then g.type else typeName g)
  return text

/-- A using directive, as the declarations in its reach see it: without blanks, an alias
before its target, nothing for a static one. A comment before the semicolon takes the place
of the target. -/
def usingDirective : Reader (Option String) := do
  let _ ← keywordIf "global"
  keyword "using"
  let title ← optional do
    let _ ← keywordIf "unsafe"
    let title ← name
    mark "="
    return title
  let isStatic ← if title.isNone then keywordIf "static" else pure false
  let text ← directiveTarget g title.isSome
  let target := cleanName (((← notes).getLast?.map (·.text)).getD text)
  mark ";"
  if isStatic then return none
  else match title with
    | some title => return some (title ++ " = " ++ target)
    | none => return some target

def namespaceName : Reader String := do
  keyword "namespace"
  let (_, text, _) ← withText (typeName g)
  return cleanName text

mutual

/-- The members of a type in braces, nested at most `depth` deep. -/
def typeBody : Nat → Reader (List MemberTree)
  | 0 => failure
  | depth + 1 => do
    mark "\x7b"
    let members ← many (member depth)
    mark "\x7d"
    return members.filterMap id

def member : Nat → Reader (Option MemberTree)
  | 0 => failure
  | depth + 1 =>
    (do
      let _ ← usingDirective g
      return none) <|>
    (do
      let _ ← typeDecl g (typeBody depth)
      return none) <|>
    (do
      let (draft, text, span) ← withDeclText do
        let attributes ← attributeLists g
        let _ ← many modifier
        (do
          delegateMember g <|> eventMember g
          return .other) <|> typedMember g attributes <|> (do
          constructor g <|> destructor g <|> operatorMember g <|> indexer g <|> fields g
          return .other)
      return draft.place text span) <|>
    (do
      let _ ← namespaceName g
      let _ ← typeBody depth
      closingSemicolon
      return none)

end

end TypeAtlas.Source.Reader
