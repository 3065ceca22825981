import TypeAtlas.Source.Tree
import TypeAtlas.Source.Token

/-!
Reading tokens from left to right. A reader either takes tokens and gives a result or
fails and leaves everything as it was.
-/

namespace TypeAtlas.Source

structure Cursor where
  rest : List Token
  /-- The position behind the last token taken. -/
  stop : Nat := 0
  /-- The type of the first variable declaration met so far. -/
  declared : Option TypeTree := none

abbrev Reader := StateT Cursor Option

namespace Reader

def peek? : Reader (Option Token) := do return (← get).rest.head?

def next : Reader Token := do
  match (← get).rest with
  | [] => failure
  | token :: rest =>
    modify fun cursor => { cursor with rest := rest, stop := token.stop }
    return token

/-- Take the next token if it passes. -/
def nextIf (p : Token → Bool) : Reader Token := do
  let token ← next
  if p token then return token else failure

def isMark (text : String) (token : Token) : Bool := token.kind == .mark && token.text == text

def isWord (text : String) (token : Token) : Bool := token.kind == .word && token.text == text

/-- Take a mark. -/
def mark (text : String) : Reader Unit := do
  let _ ← nextIf (isMark text)

/-- Take a keyword. -/
def keyword (text : String) : Reader Unit := do
  let _ ← nextIf (isWord text)

/-- Take a name. Any word is one where nothing but a name can stand. -/
def name : Reader String := do
  let token ← nextIf (·.kind == .word)
  return token.text

/-- Whether the next token is this mark. -/
def atMark (text : String) : Reader Bool := do return (← peek?).any (isMark text)

/-- Whether the next token is this keyword. -/
def atKeyword (text : String) : Reader Bool := do return (← peek?).any (isWord text)

/-- Whether the next token is one of these keywords. -/
def atAnyKeyword (texts : List String) : Reader Bool := do
  return (← peek?).any fun token => token.kind == .word && texts.contains token.text

def ahead (tests : List (Token → Bool)) : Reader Bool := do
  let rest := (← get).rest
  return tests.length ≤ rest.length && (rest.zip tests).all fun (token, test) => test token

def markIf (text : String) : Reader Bool := do
  if ← atMark text then
    let _ ← next
    return true
  else return false

def keywordIf (text : String) : Reader Bool := do
  if ← atKeyword text then
    let _ ← next
    return true
  else return false

/-- Read if possible. -/
def optional {α : Type} (p : Reader α) : Reader (Option α) := (some <$> p) <|> pure none

/-- Read as often as possible, at most `n` times. -/
def upTo {α : Type} (p : Reader α) : Nat → Reader (List α)
  | 0 => pure []
  | n + 1 => do
    match ← optional p with
    | none => pure []
    | some x =>
      let xs ← upTo p n
      pure (x :: xs)

/-- Read as often as possible. Every round takes a token, so the number of tokens left
bounds the rounds. -/
def many {α : Type} (p : Reader α) : Reader (List α) := do upTo p (← get).rest.length

def commaList1 {α : Type} (p : Reader α) : Reader (List α) := do
  let first ← p
  let rest ← many do
    mark ","
    p
  return first :: rest

/-- Any number with commas between them. -/
def commaList {α : Type} (p : Reader α) : Reader (List α) := commaList1 p <|> pure []

/-- Nothing is left. -/
def finish : Reader Unit := do
  if (← get).rest.isEmpty then pure () else failure

/-- The result with the text it was read from and where that text stands. -/
def withText {α : Type} (p : Reader α) : Reader (α × String × Span) := do
  let before := (← get).rest
  let x ← p
  let stop := (← get).stop
  let taken := before.takeWhile (·.start < stop)
  return (x, textOf taken, ⟨(before.head?.map (·.start)).getD stop, stop⟩)

/-- The notes in front of the next token. -/
def notes : Reader (List Note) := do return ((← peek?).map (·.notes)).getD []

/-- Remember the type of a variable declaration, `before` being what was remembered where it began. -/
def declare (before : Option TypeTree) (type : TypeTree) : Reader Unit :=
  modify fun cursor => { cursor with declared := before.or (some type) }

end Reader

end TypeAtlas.Source
