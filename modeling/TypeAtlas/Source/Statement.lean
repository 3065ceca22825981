import TypeAtlas.Source.Expression

/-!
Statements, and the grammar in which all phrases stand inside one another to any depth.
-/

namespace TypeAtlas.Source.Reader

variable (g : Grammar)

/-- Words that may stand before a member or a local declaration. -/
def modifiers : List String :=
  ["abstract", "async", "const", "extern", "file", "fixed", "internal", "new", "override", "partial",
    "private", "protected", "public", "readonly", "required", "sealed", "static", "unsafe", "virtual",
    "volatile"]

/-- A modifier. The word `file` is also a name: it is one before a mark that continues a type and
before a name that ends the declaration. -/
def modifier : Reader Unit := do
  let token ← nextIf fun token => token.kind == .word && modifiers.contains token.text
  if token.text == "file" then
    match (← get).rest with
    | first :: second :: _ =>
      if first.kind == .mark && ["<", ".", "::", "[", "?", "*"].contains first.text then failure
      if first.kind == .word && second.kind == .mark &&
        [";", "=", ",", "(", "\x7b", "=>"].contains second.text then failure
    | _ => failure

/-- A pattern of names that takes a value apart. -/
def namePattern : Nat → Reader Unit
  | 0 => failure
  | n + 1 => do
    mark "("
    let _ ← commaList1 (namePattern n <|> do
      let _ ← name)
    mark ")"

/-- A variable with its size or its initial value. -/
def declarator : Reader Unit := do
  namePattern 16 <|> (do
    let _ ← name)
  let _ ← optional (arguments g "[" "]")
  let _ ← optional do
    mark "="
    g.initialiser <|> g.expression

/-- A type and the variables declared of it, the first of which is named by none of the `reserved` words.
The type itself may hold statements; a variable declared in them comes later than this one. -/
def typedNames (reserved : List String) : Reader Unit := do
  let before := (← get).declared
  let type ← g.type
  if ← atAnyKeyword reserved then failure
  let _ ← commaList1 (declarator g)
  declare before type

/-- Words that begin a statement of their own, never a name, a type or an expression. -/
def statementWords : List String :=
  ["break", "continue", "do", "for", "foreach", "goto", "if", "lock", "return", "switch", "throw", "try",
    "while"]

/-- Words that begin a declaration and so no expression. -/
def declarationWords : List String :=
  ["abstract", "const", "extern", "fixed", "internal", "override", "partial", "private", "protected", "public",
    "readonly", "required", "sealed", "unsafe", "using", "virtual", "volatile"]

/-- What a function does: a block, an expression, or nothing. -/
def functionBody : Reader Unit := do
  if ← atMark "\x7b" then block g
  else if ← markIf "=>" then
    g.expression
    mark ";"
  else mark ";"

/-- A function inside another one. -/
def localFunction : Reader Unit := do
  let _ ← attributeLists g
  let _ ← many modifier
  let _ ← g.type
  let _ ← name
  let _ ← optional (typeParams g)
  let _ ← params g
  let _ ← many (constraints g)
  functionBody g

def localVariables : Reader Unit := do
  let _ ← keywordIf "await"
  let _ ← keywordIf "using"
  let _ ← many modifier
  typedNames g []
  mark ";"

/-- Whether the tokens of an expression make a statement, that is, whether they have an effect: they
create, await, step, assign or call. -/
def isEffect (tokens : List Token) : Bool :=
  let begins := tokens.head?.any fun token =>
    isWord "new" token || isWord "await" token ||
      token.kind == .mark && ("(" :: leadingMarks).contains token.text
  let ends := tokens.getLast?.any fun token =>
    token.kind == .mark && [")", "++", "--", "!"].contains token.text
  let assigns := tokens.any fun token =>
    token.kind == .mark && token.text.endsWith "=" && token.text != "==" && token.text != "!="
  begins || ends || assigns

def expressionStatement : Reader Unit := do
  if ← atAnyKeyword declarationWords then failure
  let before := (← get).rest
  g.expression
  let stop := (← get).stop
  if !isEffect (before.takeWhile (·.start < stop)) then failure
  mark ";"

/-- A condition in parentheses. -/
def tested : Reader Unit := do
  mark "("
  g.expression
  mark ")"

/-- The head of a counting loop. -/
def forHead : Reader Unit := do
  mark "("
  let _ ← optional (typedNames g [] <|> do
    let _ ← commaList1 g.expression)
  mark ";"
  let _ ← optional g.expression
  mark ";"
  let _ ← commaList g.expression
  mark ")"

/-- The head of a loop over a collection. -/
def foreachHead : Reader Unit := do
  mark "("
  (do
    let _ ← g.type
    namePattern 16 <|> (do
      let _ ← name)
    keyword "in") <|> (do
    g.expression
    keyword "in")
  g.expression
  mark ")"

/-- A label of a section: a case with its condition, or the default. -/
def switchLabel : Reader Unit := do
  (do
    keyword "case"
    g.pattern
    let _ ← many (continuation g g.expression)
    let _ ← optional do
      keyword "when"
      g.expression) <|> keyword "default"
  mark ":"

def switchSection : Reader Unit := do
  switchLabel g
  let _ ← many (switchLabel g)
  let _ ← many do
    if ← atAnyKeyword ["case", "default"] then failure
    g.statement

def catchClause : Reader Unit := do
  keyword "catch"
  let _ ← optional do
    mark "("
    let _ ← g.type
    let _ ← optional name
    mark ")"
  let _ ← optional do
    keyword "when"
    tested g
  block g

/-- Something acquired for the length of a statement. -/
def acquired : Reader Unit := do
  mark "("
  (typedNames g [] <|> g.expression)
  mark ")"

/-- A statement that begins with the given word, already taken. -/
def wordStatement (word : String) : Reader Unit := do
  match word with
  | "if" =>
    tested g
    g.statement
    let _ ← optional do
      keyword "else"
      g.statement
  | "while" =>
    tested g
    g.statement
  | "do" =>
    g.statement
    keyword "while"
    tested g
    mark ";"
  | "for" =>
    forHead g
    g.statement
  | "foreach" =>
    foreachHead g
    g.statement
  | "switch" =>
    (tested g <|> parenthesised g)
    mark "\x7b"
    let _ ← many (switchSection g)
    mark "\x7d"
  | "return" | "throw" =>
    let _ ← optional g.expression
    mark ";"
  | "break" | "continue" => mark ";"
  | "goto" =>
    (do
      keyword "case"
      g.expression) <|> (do
      let _ ← name)
    mark ";"
  | "try" =>
    block g
    let _ ← many (catchClause g)
    let _ ← optional do
      keyword "finally"
      block g
  | "lock" =>
    tested g
    g.statement
  | "using" | "fixed" =>
    acquired g
    g.statement
  | "unsafe" | "checked" | "unchecked" => block g
  | "yield" =>
    (do
      keyword "return"
      g.expression) <|> keyword "break"
    mark ";"
  | "await" =>
    (do
      keyword "foreach"
      foreachHead g) <|> (do
      keyword "using"
      acquired g)
    g.statement
  | _ => failure

def labelled : Reader Unit := do
  let _ ← name
  mark ":"
  g.statement

def statement : Reader Unit := do
  if ← atMark "\x7b" then block g
  else if ← markIf ";" then pure ()
  else if ← atAnyKeyword statementWords then
    wordStatement g (← name)
  else
    (do wordStatement g (← name)) <|> labelled g <|> localFunction g <|> localVariables g <|>
      expressionStatement g

end TypeAtlas.Source.Reader

namespace TypeAtlas.Source

/-- Phrases nested at most `depth` deep. -/
def grammar : Nat → Grammar
  | 0 => ⟨failure, failure, failure, failure, failure, failure⟩
  | depth + 1 =>
    { type := fun cursor => Reader.type (grammar depth) cursor
      expression := fun cursor => Reader.expression (grammar depth) cursor
      condition := fun cursor => Reader.condition (grammar depth) cursor
      pattern := fun cursor => Reader.pattern (grammar depth) cursor
      initialiser := fun cursor => Reader.initialiser (grammar depth) cursor
      statement := fun cursor => Reader.statement (grammar depth) cursor }

end TypeAtlas.Source
