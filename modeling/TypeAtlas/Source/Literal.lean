import TypeAtlas.Text.NameChar

/-!
Literals in C# source. Each scanner takes the text behind the opening mark and returns
what follows the literal, or `none` where it is not closed. Only the extent of a literal
matters here, not its value.
-/

namespace TypeAtlas.Source.Literal

def isHexDigit (c : Char) : Bool :=
  Text.isAsciiDigit c || ('a' ≤ c && c ≤ 'f') || ('A' ≤ c && c ≤ 'F')

def dropHex : Nat → List Char → Option (List Char)
  | 0, cs => some cs
  | n + 1, c :: cs => if isHexDigit c then dropHex n cs else none
  | _ + 1, [] => none

def dropHexUpTo : Nat → List Char → List Char
  | n + 1, c :: cs => if isHexDigit c then dropHexUpTo n cs else c :: cs
  | _, cs => cs

/-- The rest of an escape behind its backslash. -/
def escape : List Char → Option (List Char)
  | 'x' :: cs => (dropHex 1 cs).map (dropHexUpTo 3)
  | 'u' :: cs => dropHex 4 cs
  | 'U' :: cs => dropHex 8 cs
  | c :: cs => if c = '\n' then none else some cs
  | [] => none

/-- A character literal behind its opening quote. -/
def character : List Char → Option (List Char)
  | '\\' :: cs => do
    match ← escape cs with
    | '\'' :: rest => some rest
    | _ => none
  | c :: '\'' :: cs => if c = '\'' ∨ c = '\n' then none else some cs
  | _ => none

/-- A string on one line. Any character may follow a backslash. -/
def plain : List Char → Option (List Char)
  | [] => none
  | '"' :: cs => some cs
  | '\n' :: _ => none
  | '\\' :: c :: cs => if c = '\n' then none else plain cs
  | _ :: cs => plain cs

/-- A string over several lines, in which a quote is written twice. -/
def verbatim : List Char → Option (List Char)
  | [] => none
  | '"' :: '"' :: cs => verbatim cs
  | '"' :: cs => some cs
  | _ :: cs => verbatim cs

/-- A string between runs of `quotes` quotes, `run` of the closing ones being read. -/
def raw (quotes : Nat) : Nat → List Char → Option (List Char)
  | run, [] => if run = quotes then some [] else none
  | run, c :: cs =>
    if run = quotes then some (c :: cs)
    else raw quotes (if c = '"' then run + 1 else 0) cs

/-- How an interpolated string is written. -/
inductive Style where
  | plain
  | verbatim
  /-- Between runs of quotes, with that many braces around a hole. -/
  | raw (quotes braces : Nat)

/-- The number of braces around a hole. -/
def Style.braces : Style → Nat
  | plain | verbatim => 1
  | raw _ braces => braces

/-- How many times `c` stands in front. -/
def leading (c : Char) (cs : List Char) : Nat := (cs.takeWhile (· == c)).length

def isSpace (c : Char) : Bool := c == ' ' || c == '\t' || c == '\r' || c == '\n'

/-- Drop what `n` equal characters in front allow. -/
def dropRun (c : Char) (n : Nat) (cs : List Char) : Option (List Char) :=
  if n ≤ leading c cs then some (cs.drop n) else none

/-- A comment behind its opening mark. -/
def comment : List Char → Option (List Char)
  | [] => none
  | '*' :: '/' :: cs => some cs
  | _ :: cs => comment cs

mutual

/-- A string literal of any form from its first character. -/
def string : Nat → List Char → Option (List Char)
  | 0, _ => none
  | fuel + 1, cs =>
    match cs with
    | '@' :: '"' :: cs => verbatim cs
    | '@' :: '$' :: '"' :: cs => interpolated fuel .verbatim cs
    | '$' :: '@' :: '"' :: cs => interpolated fuel .verbatim cs
    | '"' :: _ =>
      let quotes := leading '"' cs
      if quotes = 1 then plain (cs.drop 1)
      else if quotes = 2 then some (cs.drop 2)
      else raw quotes 0 (cs.drop quotes)
    | '$' :: _ =>
      let braces := leading '$' cs
      let cs := cs.drop braces
      let quotes := leading '"' cs
      if 3 ≤ quotes then interpolated fuel (.raw quotes braces) (cs.drop quotes)
      else if quotes = 0 ∨ braces ≠ 1 then none
      else interpolated fuel .plain (cs.drop 1)
    | _ => none

/-- The text of an interpolated string up to its end. -/
def interpolated : Nat → Style → List Char → Option (List Char)
  | 0, _, _ => none
  | _, _, [] => none
  | fuel + 1, style, c :: cs =>
    match style with
    | .raw quotes braces =>
      if c = '"' ∧ quotes ≤ leading '"' (c :: cs) then some ((c :: cs).drop quotes)
      else if c = '\x7b' ∧ braces ≤ leading '\x7b' (c :: cs) then
        hole fuel style ((c :: cs).drop (leading '\x7b' (c :: cs)))
      else interpolated fuel style cs
    | .plain =>
      match c, cs with
      | '"', cs => some cs
      | '\n', _ => none
      | '\\', _ :: cs => interpolated fuel style cs
      | '\x7b', '\x7b' :: cs => interpolated fuel style cs
      | '\x7b', cs => hole fuel style cs
      | _, cs => interpolated fuel style cs
    | .verbatim =>
      match c, cs with
      | '"', '"' :: cs => interpolated fuel style cs
      | '"', cs => some cs
      | '\x7b', '\x7b' :: cs => interpolated fuel style cs
      | '\x7b', cs => hole fuel style cs
      | _, cs => interpolated fuel style cs

/-- A hole, which may not be empty, and the text that follows it. -/
def hole : Nat → Style → List Char → Option (List Char)
  | 0, _, _ => none
  | fuel + 1, style, cs =>
    match cs.dropWhile isSpace with
    | [] => none
    | c :: rest =>
      if c = '\x7d' ∨ c = ':' then none else holeBody fuel style 0 (c :: rest)

/-- The inside of a hole with `depth` brackets open. A colon outside of brackets begins
a format, which runs to the closing brace. -/
def holeBody : Nat → Style → Nat → List Char → Option (List Char)
  | 0, _, _, _ => none
  | _, _, _, [] => none
  | fuel + 1, style, depth, c :: cs =>
    if c = '"' ∨ c = '$' ∨ (c = '@' ∧ (cs.head? = some '"' ∨ cs.head? = some '$')) then do
      holeBody fuel style depth (← string fuel (c :: cs))
    else if c = '\'' then do
      holeBody fuel style depth (← character cs)
    else if c = '/' ∧ cs.head? = some '*' then do
      holeBody fuel style depth (← comment (cs.drop 1))
    else if c = '(' ∨ c = '[' ∨ c = '\x7b' then
      holeBody fuel style (depth + 1) cs
    else if c = ')' ∨ c = ']' then
      if depth = 0 then none else holeBody fuel style (depth - 1) cs
    else if c = '\x7d' then
      if depth = 0 then do
        interpolated fuel style (← dropRun '\x7d' style.braces (c :: cs))
      else holeBody fuel style (depth - 1) cs
    else if c = ':' ∧ depth = 0 then
      match cs with
      | ':' :: cs => holeBody fuel style depth cs
      | cs => do
        interpolated fuel style (← dropRun '\x7d' style.braces
          (cs.dropWhile fun x => x != '\x7d' && x != '"'))
    else holeBody fuel style depth cs

end

/-- The mark for UTF-8 behind a string. -/
def dropSuffix : List Char → List Char
  | 'u' :: '8' :: cs => cs
  | 'U' :: '8' :: cs => cs
  | cs => cs

/-- Drop digits with underscores between them. An underscore behind the last digit stays. -/
def dropDigits (isDigit : Char → Bool) (cs : List Char) : List Char :=
  let run := cs.takeWhile fun c => isDigit c || c == '_'
  cs.drop (run.length - leading '_' run.reverse)

def dropWholeSuffix : List Char → List Char
  | [] => []
  | c :: rest =>
    if "uU".toList.contains c then
      match rest with
      | l :: rest => if "lL".toList.contains l then rest else l :: rest
      | [] => []
    else if "lL".toList.contains c then
      match rest with
      | u :: rest => if "uU".toList.contains u then rest else u :: rest
      | [] => []
    else c :: rest

/-- Fraction, exponent and suffix of a number behind its leading digits. -/
def numberTail (cs : List Char) : List Char :=
  let cs :=
    match cs with
    | '.' :: c :: rest => if Text.isAsciiDigit c then dropDigits Text.isAsciiDigit (c :: rest) else cs
    | _ => cs
  let cs :=
    match cs with
    | e :: sign :: c :: rest =>
      if (e = 'e' ∨ e = 'E') ∧ (sign = '+' ∨ sign = '-') ∧ Text.isAsciiDigit c then
        dropDigits Text.isAsciiDigit (c :: rest)
      else if (e = 'e' ∨ e = 'E') ∧ Text.isAsciiDigit sign then
        dropDigits Text.isAsciiDigit (sign :: c :: rest)
      else cs
    | [e, digit] => if (e = 'e' ∨ e = 'E') ∧ Text.isAsciiDigit digit then [] else cs
    | _ => cs
  match cs with
  | c :: rest => if "fFdDmM".toList.contains c then rest else dropWholeSuffix cs
  | [] => []

/-- A number of base two or sixteen behind its zero, if the text is one. -/
def basedNumber? : List Char → Option (List Char)
  | [] => none
  | x :: cs =>
    let isDigit : Char → Bool := if x = 'x' ∨ x = 'X' then isHexDigit else fun c => c == '0' || c == '1'
    let rest := dropDigits isDigit cs
    if (x = 'x' ∨ x = 'X' ∨ x = 'b' ∨ x = 'B') ∧ rest.length < cs.length then some (dropWholeSuffix rest)
    else none

/-- A number from its first character. -/
def number : List Char → List Char
  | '0' :: cs => (basedNumber? cs).getD (numberTail (dropDigits Text.isAsciiDigit ('0' :: cs)))
  | '.' :: cs => numberTail ('.' :: cs)
  | cs => numberTail (dropDigits Text.isAsciiDigit cs)

end TypeAtlas.Source.Literal
