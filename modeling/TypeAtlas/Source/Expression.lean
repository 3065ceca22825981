import TypeAtlas.Source.Header

/-!
Expressions and patterns. Only whether the tokens form an expression matters, so operators
are read without regard to how tightly they bind.
-/

namespace TypeAtlas.Source.Reader

variable (g : Grammar)

def literal : Reader Unit := do
  let _ ← nextIf (·.kind == .literal)

/-- Words that join expressions or begin the next clause, and so are no operands. -/
def joiningWords : List String :=
  ["is", "as", "with", "switch", "when", "and", "or", "in", "on", "equals", "by", "into", "where",
    "orderby", "select", "group", "join", "let", "ascending", "descending", "else"]

/-- Whether the next token can begin an operand behind a closing parenthesis. -/
def atOperand : Reader Bool := do
  match ← peek? with
  | none => return false
  | some token =>
    match token.kind with
    | .literal => return true
    | .word => return !joiningWords.contains token.text
    | .mark => return ["(", "[", "!", "~", "-", "+", "&", "*", "++", "--", ".."].contains token.text

/-- What follows a list between two marks that opens with the first token. -/
def afterGroup (opening closing : String) (depth : Nat) : List Token → List Token
  | [] => []
  | token :: rest =>
    if isMark opening token then afterGroup opening closing (depth + 1) rest
    else if isMark closing token then
      match depth with
      | 0 | 1 => rest
      | depth + 1 => afterGroup opening closing depth rest
    else afterGroup opening closing depth rest

/-- Whether a lambda begins here: its parameters are followed by an arrow. -/
def lambdaAt : List Token → Bool
  | [] => false
  | first :: rest =>
    if first.kind == .word && rest.head?.any (isMark "=>") then true
    else if isWord "async" first || isWord "static" first then lambdaAt rest
    else isMark "(" first && (afterGroup "(" ")" 0 (first :: rest)).head?.any (isMark "=>")

def atLambda : Reader Bool := do return lambdaAt (← get).rest

/-- The words before a function without a name. One before an arrow is its parameter. -/
def functionModifiers : Reader Unit := do
  let _ ← many do
    if ← ahead [fun _ => true, isMark "=>"] then failure
    keyword "async" <|> keyword "static"

def block : Reader Unit := do
  mark "\x7b"
  let _ ← many g.statement
  mark "\x7d"

/-- The arrow of a lambda and what stands behind it. -/
def lambdaBody : Reader Unit := do
  mark "=>"
  if ← atMark "\x7b" then block g else g.expression

def lambda : Reader Unit := do
  functionModifiers
  if ← atMark "(" then
    let _ ← params g
  else
    let _ ← name
  lambdaBody g

/-- A lambda that names the type it returns. -/
def typedLambda : Reader Unit := do
  functionModifiers
  let _ ← g.type
  let _ ← params g
  lambdaBody g

def anonymousFunction : Reader Unit := do
  functionModifiers
  keyword "delegate"
  let _ ← optional (params g)
  block g

/-- A variable declared inside an expression; a list goes on or ends behind it. -/
def inlineVariable : Reader Unit := do
  let _ ← g.type
  let _ ← name
  if (← atMark ",") || (← atMark ")") || (← atMark "]") then pure () else failure

/-- An argument: possibly named, passed by value or by reference. -/
def argument : Reader Unit := do
  let _ ← optional do
    let _ ← name
    mark ":"
  if ← atAnyKeyword ["ref", "out", "in"] then
    let _ ← next
  inlineVariable g <|> g.expression

def arguments (opening closing : String) : Reader Unit := do
  mark opening
  let _ ← commaList (argument g)
  mark closing

/-- A parenthesised expression or a tuple. -/
def parenthesised : Reader Unit := do
  mark "("
  let _ ← commaList1 (argument g)
  mark ")"

/-- A list of elements in square brackets. -/
def collection : Reader Unit := do
  mark "["
  let _ ← commaList g.expression
  let _ ← markIf ","
  mark "]"

/-- A conversion: a type in parentheses before an operand. -/
def cast : Reader Unit := do
  mark "("
  let _ ← g.type
  mark ")"
  if ← atOperand then g.expression else failure

/-- A type in parentheses. -/
def typeOperand : Reader Unit := do
  mark "("
  let _ ← g.type
  mark ")"

/-- The creation of an object or an array behind `new`. -/
def creation : Reader Unit := do
  if ← atMark "\x7b" then g.initialiser
  else if ← atMark "(" then
    arguments g "(" ")"
    let _ ← optional g.initialiser
  else if ← atMark "[" then
    mark "["
    let _ ← many (mark ",")
    mark "]"
    g.initialiser
  else
    let _ ← g.type
    let _ ← optional (arguments g "(" ")")
    let _ ← optional g.initialiser

/-- Memory on the stack. -/
def stackCreation : Reader Unit := do
  if ← atMark "[" then
    mark "["
    mark "]"
    g.initialiser
  else
    let _ ← g.type
    let _ ← optional g.initialiser

/-- Marks that may follow type arguments in an expression. Before any other token an angle
bracket is an operator. -/
def afterTypeArguments : List String :=
  ["(", ")", "]", "\x7d", ":", ";", ",", ".", "?", "==", "!=", "|", "^", "&&", "||", "&", "[", "=>",
    "\x7b", "!", "=", "+", "-", "*", "/", "->", "::", ">"]

/-- Type arguments of a name in an expression. -/
def operandArguments : Reader Unit := do
  if ← atMark "<" then
    let _ ← optional do
      let _ ← typeArguments g
      match ← peek? with
      | some token =>
        if token.kind == .mark && afterTypeArguments.contains token.text then pure () else failure
      | none => pure ()

def wordOperand : Reader Unit := do
  let token ← nextIf (·.kind == .word)
  match token.text with
  | "typeof" | "sizeof" => typeOperand g
  | "default" =>
    let _ ← optional (typeOperand g)
  | "checked" | "unchecked" => parenthesised g
  | "new" => creation g
  | "stackalloc" => stackCreation g
  | "ref" | "throw" => g.expression
  | "is" | "as" => failure
  | word =>
    if (Builtin.ofKeyword? word).isSome && !(← atMark ".") then failure
    operandArguments g

/-- An operand without the operators around it. -/
def primary : Reader Unit := do
  match ← peek? with
  | none => failure
  | some token =>
    match token.kind with
    | .literal => literal
    | .word =>
      if ["delegate", "async", "static"].contains token.text then
        anonymousFunction g <|> wordOperand g
      else wordOperand g
    | .mark =>
      if token.text == "(" then cast g <|> parenthesised g
      else if token.text == "[" then collection g
      else failure

/-- Operators before an operand. -/
def leadingMarks : List String := ["+", "-", "!", "~", "++", "--", "&", "*", "^"]

/-- Member access, calls, subscripts and marks behind an operand. A bracket apart from the question
mark before it opens a collection of a choice. -/
def trailer : Reader Unit := do
  match ← peek? with
  | none => failure
  | some token =>
    if token.kind != .mark then failure
    else match token.text with
      | "." | "->" | "::" =>
        let _ ← next
        let _ ← name
        operandArguments g
      | "(" => arguments g "(" ")"
      | "[" => arguments g "[" "]"
      | "++" | "--" | "!" =>
        let _ ← next
      | "?" =>
        let _ ← next
        if ← atMark "." then
          mark "."
          let _ ← name
          operandArguments g
        else if (← get).rest.head?.any (·.start == token.stop) then arguments g "[" "]"
        else failure
      | _ => failure

/-- Operators, an operand and what trails it. -/
def operand : Reader Unit := do
  let leading ← many do
    nextIf fun token => token.kind == .mark && leadingMarks.contains token.text
  let awaits ← ahead [isWord "await", fun token => token.kind != .mark]
  if awaits then
    let _ ← next
    if ← atLambda then lambda g
    else
      primary g
      let _ ← many (trailer g)
  else if (← atMark "..") && leading.isEmpty then
    let _ ← next
    let _ ← optional g.expression
  else
    primary g
    let _ ← many (trailer g)

/-- A mark right behind the last token taken. -/
def adjacentMark (text : String) : Reader Bool := do
  let cursor ← get
  match cursor.rest with
  | token :: _ =>
    if isMark text token && token.start == cursor.stop then markIf text else return false
  | [] => return false

/-- Operators of one token. -/
def plainOperators : List String :=
  ["+", "-", "*", "/", "%", "&", "|", "^", "&&", "||", "==", "!=", "=", "+=", "-=", "*=", "/=", "%=",
    "&=", "|=", "^="]

/-- An operator between two operands. Those that begin with an angle bracket or a question
mark are put together from single marks. -/
def operator : Reader Unit := do
  let token ← nextIf (·.kind == .mark)
  if plainOperators.contains token.text then pure ()
  else if token.text == "<" then
    let _ ← adjacentMark "<"
    let _ ← adjacentMark "="
  else if token.text == ">" then
    if ← adjacentMark ">" then
      let _ ← adjacentMark ">"
    let _ ← adjacentMark "="
  else if token.text == "?" then
    if ← adjacentMark "?" then
      let _ ← adjacentMark "="
    else failure
  else failure

/-- The marks at which an optional question mark behind a tested type still belongs to it. -/
def afterNullable : List String := [")", ";", ",", "]", "\x7d", "&&", "||", "==", "!=", "=>", "&", "|"]

/-- The question mark of a nullable type, told from that of a choice by what follows. -/
def nullableEnd : Reader Unit := do
  let belongs ← ahead [isMark "?", fun token => token.kind == .mark && afterNullable.contains token.text]
  let apart := match (← get).rest with
    | first :: second :: _ => isMark "?" first && isMark "?" second && first.stop != second.start
    | _ => false
  if belongs || apart then
    let _ ← next

def switchArms : Reader Unit := do
  mark "\x7b"
  let _ ← commaList do
    g.pattern
    let _ ← optional do
      keyword "when"
      g.condition
    mark "=>"
    g.expression
  let _ ← markIf ","
  mark "\x7d"

/-- What continues an expression behind an operand. The last part is read by `last`. -/
def continuation (last : Reader Unit) : Reader Unit := do
  match ← peek? with
  | none => failure
  | some token =>
    match token.kind with
    | .literal => failure
    | .word =>
      match token.text with
      | "is" =>
        let _ ← next
        g.pattern
        nullableEnd
      | "as" =>
        let _ ← next
        g.pattern
        nullableEnd
      | "switch" =>
        let _ ← next
        switchArms g
        let _ ← many (trailer g)
      | "with" =>
        let _ ← next
        g.initialiser
        let _ ← many (trailer g)
      | _ => failure
    | .mark =>
      if token.text == ".." then
        let _ ← next
        let _ ← optional last
      else
        (do
          operator
          last) <|> (do
          mark "?"
          g.expression
          mark ":"
          last)

/-- A clause that may stand between the first and the last of a query. -/
def queryClause : Reader Unit := do
  let token ← nextIf (·.kind == .word)
  match token.text with
  | "from" => source
  | "let" =>
    let _ ← name
    mark "="
    g.expression
  | "where" => g.expression
  | "join" =>
    source
    keyword "on"
    g.expression
    keyword "equals"
    g.expression
    let _ ← optional do
      keyword "into"
      name
  | "orderby" =>
    let _ ← commaList1 do
      g.expression
      let _ ← optional (keyword "ascending" <|> keyword "descending")
  | _ => failure
where
  /-- A variable and what it ranges over. -/
  source : Reader Unit := do
    (do
      let _ ← name
      keyword "in") <|> (do
      let _ ← g.type
      let _ ← name
      keyword "in")
    g.expression

/-- The end of a query: what it selects, or how it groups. -/
def queryEnd : Reader Unit :=
  (do
    keyword "select"
    g.expression) <|> (do
    keyword "group"
    g.expression
    keyword "by"
    g.expression)

def query : Reader Unit := do
  if ← atKeyword "from" then
    let _ ← many (queryClause g)
    queryEnd g
    let _ ← many do
      keyword "into"
      let _ ← name
      let _ ← many (queryClause g)
      queryEnd g
  else failure

/-- A lambda behind attributes. Behind a bracket that closes attributes stands another list, a word
or a parenthesis. -/
def attributedLambda : Reader Unit := do
  if !(← atMark "[") then failure
  let behind := (afterGroup "[" "]" 0 (← get).rest).head?
  if !behind.any (fun token => token.kind == .word || isMark "(" token || isMark "[" token) then failure
  let _ ← attributeList g
  let _ ← attributeLists g
  if ← atLambda then lambda g else typedLambda g

def chain (last : Reader Unit) : Reader Unit := do
  operand g
  let _ ← many (continuation g last)

/-- An expression that is no lambda and ends in none, so that an arrow may follow it. -/
def condition : Reader Unit := query g <|> chain g g.condition

/-- An expression. An arrow or a question mark behind it shows that it was the head of a lambda. -/
def expression : Reader Unit :=
  query g <|> (do
    if ← atLambda then lambda g
    else
      attributedLambda g <|> (do
        chain g g.expression
        if (← atMark "=>") || (← atMark "?") then failure) <|> typedLambda g)

/-- Words that cannot name what a pattern matches. -/
def patternWords : List String := ["and", "or", "when"] ++ joiningWords

/-- The name given to what a pattern matches. -/
def designation : Reader Unit := do
  let _ ← nextIf fun token => token.kind == .word && !patternWords.contains token.text

/-- Variables of a deconstruction, nested at most `n` deep. -/
def designations : Nat → Reader Unit
  | 0 => designation
  | n + 1 => do
    if ← atMark "(" then
      mark "("
      let _ ← commaList (designations n)
      mark ")"
    else designation

/-- A pattern inside another one, possibly for a named part. -/
def subpattern : Reader Unit := do
  let _ ← optional do
    let _ ← name
    let _ ← many do
      mark "."
      name
    mark ":"
  g.pattern

/-- Patterns for parts between two marks. -/
def subpatterns (opening closing : String) : Reader Unit := do
  mark opening
  let _ ← commaList (subpattern g)
  let _ ← markIf ","
  mark closing

/-- A value to compare with: an operand, possibly computed. -/
def constant : Reader Unit := do
  operand g
  let _ ← many do
    let _ ← nextIf fun token => token.kind == .mark && ["+", "-", "*", "/", "%", "|", "^"].contains token.text
    operand g

/-- A type without a question mark at its end, so that a choice may follow. -/
def patternType : Reader Unit := do
  let token ← nextIf (·.kind == .word)
  if joiningWords.contains token.text then failure
  let _ ← markIf "::"
  operandArguments g
  let _ ← many do
    (mark "." <|> mark "::")
    let _ ← name
    operandArguments g
  let _ ← many (nullableArray <|> do
    let _ ← arrayRank g)
where
  nullableArray : Reader Unit := do
    let opens ← ahead [isMark "?", isMark "[", fun token => isMark "]" token || isMark "," token]
    if opens then
      let _ ← next
      let _ ← arrayRank g
    else failure

/-- A pattern for a type and the parts of its values. -/
def typePattern : Reader Unit := do
  patternType g
  let _ ← optional (subpatterns g "(" ")")
  let _ ← optional (subpatterns g "\x7b" "\x7d")
  let _ ← optional designation

/-- A pattern without connectives. -/
def basicPattern : Reader Unit := do
  let _ ← many (keyword "not")
  match ← peek? with
  | none => failure
  | some token =>
    match token.kind with
    | .literal => constant g
    | .word =>
      if token.text == "var" then
        (do
          keyword "var"
          designations 16) <|> typePattern g
      else typePattern g <|> constant g
    | .mark =>
      match token.text with
      | "(" =>
        (do
          subpatterns g "(" ")"
          let _ ← optional (subpatterns g "\x7b" "\x7d")
          let _ ← optional designation) <|> constant g
      | "\x7b" =>
        subpatterns g "\x7b" "\x7d"
        let _ ← optional designation
      | "[" =>
        subpatterns g "[" "]"
        let _ ← optional designation
      | "<" | ">" =>
        let _ ← next
        let _ ← adjacentMark "="
        constant g
      | ".." =>
        let _ ← next
        let _ ← optional g.pattern
      | _ => constant g

def pattern : Reader Unit := do
  basicPattern g
  let _ ← many do
    (keyword "and" <|> keyword "or")
    basicPattern g

/-- An element of an initialiser; what is assigned to a member may be a list again. -/
def initialElement : Reader Unit :=
  g.initialiser <|> (do
    let _ ← name
    mark "="
    g.initialiser) <|> (do
    arguments g "[" "]"
    mark "="
    g.initialiser) <|> g.expression

/-- A list of initial values or assignments in braces. -/
def initialiser : Reader Unit := do
  mark "\x7b"
  let _ ← commaList (initialElement g)
  let _ ← markIf ","
  mark "\x7d"

end TypeAtlas.Source.Reader
