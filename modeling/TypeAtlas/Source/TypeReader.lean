import TypeAtlas.Source.Cursor

/-!
Reading types. Types, expressions and statements contain one another; a reader for one
kind of phrase takes the readers for what stands inside it from a grammar one level
shallower.
-/

namespace TypeAtlas.Source

/-- Readers for the phrases that can stand inside others. -/
structure Grammar where
  type : Reader TypeTree
  expression : Reader Unit
  /-- An expression before an arrow that is not its own. -/
  condition : Reader Unit
  pattern : Reader Unit
  initialiser : Reader Unit
  statement : Reader Unit

namespace Reader

variable (g : Grammar)

/-- A note in a list of types is read as a type that is not supported. -/
def noteTypes : Reader (List TypeTree) := do
  return (← notes).map fun note => .unsupported note.node note.text

/-- A type argument with the notes on both sides of it. -/
def typeArgument : Reader (List TypeTree) := do
  let before ← noteTypes
  let type ← g.type
  let after ← noteTypes
  return before ++ [type] ++ after

/-- The list of an open generic type: only commas, as many as there are. -/
def openArguments : Reader (List TypeTree) := do
  let before ← noteTypes
  let commas ← many do
    mark ","
    noteTypes
  return before ++ commas.flatten

/-- Type arguments in angle brackets. -/
def typeArguments : Reader (List TypeTree) := do
  mark "<"
  if (← atMark ",") || (← atMark ">") then
    let notes ← openArguments
    mark ">"
    return notes
  else
    let args ← commaList1 (typeArgument g)
    mark ">"
    return args.flatten

def plainName : Reader String := do
  let token ← nextIf fun token => token.kind == .word && Builtin.ofKeyword? token.text == none
  return token.text

def simpleType (text : String) : Reader TypeTree := do
  if ← atMark "<" then
    match ← optional (typeArguments g) with
    | some args => return .generic text args
    | none => return .simple text
  else return .simple text

/-- The parts of a name behind dots. The text of everything before the last dot is its
qualifier. -/
def dotted (start : List Token) : Nat → TypeTree → Reader TypeTree
  | 0, tree => pure tree
  | n + 1, tree => do
    if ← atMark "." then
      let stop := (← get).stop
      let before ← get
      let _ ← next
      match ← optional (do simpleType g (← name)) with
      | some last =>
        dotted start n (.qualified (cleanName (textOf (start.takeWhile (·.start < stop)))) last)
      | none =>
        set before
        pure tree
    else pure tree

/-- A name, possibly behind an alias and with dots. -/
def typeName : Reader TypeTree := do
  let start := (← get).rest
  let first ← plainName
  if ← markIf "::" then
    let last ← simpleType g (← name)
    dotted g start start.length (.qualified (if first = "global" then "" else first) last)
  else
    let tree ← simpleType g first
    dotted g start start.length tree

/-- A tuple type of two or more elements, each possibly named. -/
def tupleType : Reader TypeTree := do
  mark "("
  let elements ← commaList1 do
    let type ← g.type
    let _ ← optional name
    return type
  mark ")"
  if elements.length < 2 then failure else return .tuple elements

/-- A pointer to a function: its calling convention and the types it takes and gives. -/
def functionPointer : Reader Unit := do
  keyword "delegate"
  mark "*"
  if ← atAnyKeyword ["managed", "unmanaged"] then
    let _ ← next
    let _ ← optional do
      mark "["
      let _ ← commaList1 name
      mark "]"
  mark "<"
  let _ ← commaList1 do
    let _ ← many (nextIf fun token => ["ref", "out", "in", "readonly"].contains token.text)
    let _ ← g.type
  mark ">"

/-- The brackets of an array, which may hold sizes. -/
def arrayRank : Reader Nat := do
  mark "["
  let _ ← optional g.expression
  let commas ← many do
    mark ","
    let _ ← optional g.expression
  mark "]"
  return commas.length + 1

/-- What may follow a type to make a further one. -/
structure Suffixes where
  nullable : Bool
  pointer : Bool

/-- The marks behind a type, at most `n` of them: `?`, `*` and array brackets. -/
def suffixed (start : List Token) : Nat → Suffixes → TypeTree → Reader TypeTree
  | 0, _, tree => pure tree
  | n + 1, allowed, tree => do
    if (← atMark "?") && allowed.nullable then
      let _ ← next
      suffixed start n ⟨false, allowed.pointer⟩ (.wrapped tree)
    else if (← atMark "*") && allowed.pointer then
      let _ ← next
      let stop := (← get).stop
      let text := textOf (start.takeWhile (·.start < stop))
      suffixed start n ⟨false, true⟩ (.unsupported "pointer_type" text)
    else if ← atMark "[" then
      match ← optional (arrayRank g) with
      | some rank => suffixed start n ⟨true, false⟩ (.array tree rank)
      | none => pure tree
    else pure tree

/-- A scoped type: a name has to follow it, otherwise the word itself is the type. -/
def scopedType : Reader TypeTree := do
  keyword "scoped"
  let inner ← g.type
  if (← peek?).any (·.kind == .word) then return .wrapped inner else failure

/-- Whether `var` stands for itself: behind it nothing follows that makes a type of it. -/
def atImplicit : Reader Bool := do
  let rest := (← get).rest
  match rest with
  | first :: rest =>
    return isWord "var" first && !rest.head?.any fun token =>
      token.kind == .mark && ["<", ".", "::", "[", "?", "*"].contains token.text
  | [] => return false

def type : Reader TypeTree := do
  let start := (← get).rest
  let finish (tree : TypeTree) : Reader TypeTree :=
    suffixed g start start.length ⟨true, true⟩ tree
  match start with
  | [] => failure
  | first :: _ =>
    if isMark "(" first then
      finish (← tupleType g)
    else if isWord "ref" first then
      keyword "ref"
      let _ ← keywordIf "readonly"
      return .wrapped (← g.type)
    else if isWord "delegate" first then
      let (_, text, _) ← withText (functionPointer g)
      suffixed g start start.length ⟨false, true⟩ (.unsupported "function_pointer_type" text)
    else if ← atImplicit then
      let _ ← next
      return .unsupported "implicit_type" "var"
    else if first.kind == .word then
      match Builtin.ofKeyword? first.text with
      | some type =>
        let _ ← next
        finish (.builtin type)
      | none =>
        match ← optional (scopedType g) with
        | some tree => return tree
        | none => finish (← typeName g)
    else failure

end Reader

end TypeAtlas.Source
