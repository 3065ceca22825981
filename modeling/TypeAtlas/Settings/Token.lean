/-!
Tokens of a TOML text. Line ends are one character; a carriage return before a line feed
belongs to it.
-/

namespace TypeAtlas.Toml

inductive Token where
  | newline
  | blank (text : String)
  | comment
  | equals | period | comma | colon | plus
  | leftBrace | rightBrace | leftBracket | rightBracket
  /-- Letters, digits, `-` and `_`: a key, a number, a date or a truth value. -/
  | word (text : String)
  | text (value : String) (multiline : Bool)
deriving DecidableEq, Repr

def foldLines : List Char → List Char
  | '\r' :: '\n' :: rest => '\n' :: foldLines rest
  | c :: rest => c :: foldLines rest
  | [] => []

def isBlankChar (c : Char) : Bool := c == ' ' || c == '\t'

def isWordChar (c : Char) : Bool := c.isAlphanum || c == '-' || c == '_'

/-- Characters that a comment can hold. -/
def isCommentChar (c : Char) : Bool := c == '\t' || 0x20 ≤ c.toNat

/-- Characters that stand for themselves in a string. -/
def isTextChar (c : Char) : Bool := isCommentChar c && c.toNat != 0x7f

def markToken? : Char → Option Token
  | '\n' => some .newline
  | '=' => some .equals
  | '.' => some .period
  | ',' => some .comma
  | ':' => some .colon
  | '+' => some .plus
  | '\x7b' => some .leftBrace
  | '\x7d' => some .rightBrace
  | '[' => some .leftBracket
  | ']' => some .rightBracket
  | _ => none

def hexValue? (c : Char) : Option Nat :=
  if c.isDigit then some (c.toNat - 48)
  else if 'a' ≤ c ∧ c ≤ 'f' then some (c.toNat - 87)
  else if 'A' ≤ c ∧ c ≤ 'F' then some (c.toNat - 55)
  else none

/-- The character whose number stands in `digits` hexadecimal digits. -/
def hexEscape (digits : Nat) (cs : List Char) : Option (Char × List Char) := do
  let values ← (cs.take digits).mapM hexValue?
  guard (values.length = digits)
  let code := values.foldl (fun n d => n * 16 + d) 0
  guard (code.isValidChar)
  return (Char.ofNat code, cs.drop digits)

/-- What follows a backslash that ends a line: the rest of the blank line and all blanks and
line ends behind it. -/
def continuation (cs : List Char) : Option (List Char) :=
  match cs.dropWhile isBlankChar with
  | '\n' :: rest => some (rest.dropWhile fun c => isBlankChar c || c == '\n')
  | [] => some []
  | _ => none

/-- One escaped character, `none` where a line is continued. -/
def escape (multiline : Bool) : List Char → Option (Option Char × List Char)
  | '"' :: rest => some (some '"', rest)
  | '\\' :: rest => some (some '\\', rest)
  | 'b' :: rest => some (some (Char.ofNat 8), rest)
  | 'f' :: rest => some (some (Char.ofNat 12), rest)
  | 'n' :: rest => some (some '\n', rest)
  | 'r' :: rest => some (some '\r', rest)
  | 't' :: rest => some (some '\t', rest)
  | 'u' :: rest => (hexEscape 4 rest).map fun (c, rest) => (some c, rest)
  | 'U' :: rest => (hexEscape 8 rest).map fun (c, rest) => (some c, rest)
  | c :: rest =>
    if multiline && (isBlankChar c || c == '\n') then
      (continuation (c :: rest)).map fun rest => (none, rest)
    else none
  | [] => none

/-- The text up to the closing quote of one line. -/
def shortText (quote : Char) : Nat → List Char → Option (List Char × List Char)
  | 0, _ => none
  | _, [] => none
  | fuel + 1, c :: rest =>
    if c = quote then some ([], rest)
    else if quote = '"' ∧ c = '\\' then do
      let (c, rest) ← escape false rest
      let (text, rest) ← shortText quote fuel rest
      return (c.toList ++ text, rest)
    else if isTextChar c then do
      let (text, rest) ← shortText quote fuel rest
      return (c :: text, rest)
    else none

/-- The text up to three closing quotes. Up to two more quotes belong to it. -/
def longText (quote : Char) : Nat → List Char → Option (List Char × List Char)
  | 0, _ => none
  | _, [] => none
  | fuel + 1, c :: rest =>
    if c = quote then
      let run := (rest.takeWhile (· == quote)).length
      if run < 2 then do
        let (text, rest) ← longText quote fuel rest
        return (c :: text, rest)
      else
        let inner := min (run - 2) 2
        some (List.replicate inner quote, rest.drop (inner + 2))
    else if quote = '"' ∧ c = '\\' then do
      let (c, rest) ← escape true rest
      let (text, rest) ← longText quote fuel rest
      return (c.toList ++ text, rest)
    else if isTextChar c || c == '\n' then do
      let (text, rest) ← longText quote fuel rest
      return (c :: text, rest)
    else none

/-- A string behind its first quote. -/
def textToken (quote : Char) (cs : List Char) : Option (Token × List Char) :=
  let fuel := cs.length + 1
  match cs with
  | a :: b :: rest =>
    if a = quote ∧ b = quote then do
      let rest := match rest with
        | '\n' :: rest => rest
        | rest => rest
      let (text, rest) ← longText quote fuel rest
      return (.text (String.ofList text) true, rest)
    else if a = quote then some (.text "" false, b :: rest)
    else (shortText quote fuel cs).map fun (text, rest) => (.text (String.ofList text) false, rest)
  | cs => (shortText quote fuel cs).map fun (text, rest) => (.text (String.ofList text) false, rest)

def oneToken (c : Char) (rest : List Char) : Option (Token × List Char) :=
  match markToken? c with
  | some token => some (token, rest)
  | none =>
    if isBlankChar c then
      some (.blank (String.ofList (c :: rest.takeWhile isBlankChar)), rest.dropWhile isBlankChar)
    else if c = '#' then some (.comment, rest.dropWhile isCommentChar)
    else if c = '"' ∨ c = '\'' then textToken c rest
    else if isWordChar c then
      some (.word (String.ofList (c :: rest.takeWhile isWordChar)), rest.dropWhile isWordChar)
    else none

/-- Every token takes at least one character. -/
def tokens : Nat → List Char → Option (List Token)
  | _, [] => some []
  | 0, _ => none
  | fuel + 1, c :: rest => do
    let (token, rest) ← oneToken c rest
    let more ← tokens fuel rest
    return token :: more

/-- A mark that may stand before everything. -/
def byteOrderMark : Char := Char.ofNat 0xfeff

/-- The tokens of a text; `none` where a character fits nowhere. -/
def tokenize (text : String) : Option (List Token) :=
  let cs := foldLines text.toList
  let cs := if cs.head? = some byteOrderMark then cs.drop 1 else cs
  tokens cs.length cs

end TypeAtlas.Toml
