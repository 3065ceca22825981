import TypeAtlas.Settings.Token

/-!
TOML texts as tables: the values before the first header, then one table for each header.
A text that breaks a rule of the format has no tables.
-/

namespace TypeAtlas.Toml

inductive Value where
  | text (value : String)
  | number (value : Int)
  | flag (value : Bool)
  /-- A float, a date or a time. -/
  | other
  | list (items : List Value)
  /-- A table in braces, or one that dotted keys make. -/
  | table (dotted : Bool) (fields : List (String × Value))

abbrev Fields := List (String × Value)

structure Section where
  header : List String
  isArray : Bool
  fields : Fields

/-- Put a value where a dotted key leads. Only tables made by dotted keys can be reached
into. -/
def addDotted (fields : Fields) (value : Value) : List String → Option Fields
  | [] => none
  | [key] => some (fields ++ [(key, value)])
  | key :: keys =>
    match fields.find? (·.1 == key) with
    | none => do
      let inner ← addDotted [] value keys
      return fields ++ [(key, .table true inner)]
    | some (_, .table true inner) => do
      let inner ← addDotted inner value keys
      return replaceFirst key (.table true inner) fields
    | some _ => none
where
  replaceFirst (key : String) (value : Value) : Fields → Fields
    | [] => []
    | (k, v) :: rest => if k = key then (k, value) :: rest else (k, v) :: replaceFirst key value rest

def digitIn? (base : Nat) (c : Char) : Option Nat := (hexValue? c).filter (· < base)

/-- Digits with single underscores between them, from the front of the text. -/
def takeDigits (base : Nat) (leadingZeros : Bool) (cs : List Char) : Option (List Nat × List Char) :=
  let taken := cs.takeWhile fun c => (digitIn? base c).isSome || c == '_'
  let groups := splitAt taken
  let digits := taken.filterMap (digitIn? base)
  if groups.any List.isEmpty then none
  else if !leadingZeros && digits.length > 1 && digits.head? == some 0 then none
  else some (digits, cs.drop taken.length)
where
  splitAt : List Char → List (List Char)
    | [] => [[]]
    | c :: cs =>
      if c = '_' then [] :: splitAt cs
      else match splitAt cs with
        | [] => [[c]]
        | group :: rest => (c :: group) :: rest

def ofDigits (base : Nat) (digits : List Nat) : Nat := digits.foldl (fun n d => n * base + d) 0

/-- A text behind its sign. -/
def dropSign : List Char → Bool × List Char
  | '-' :: rest => (true, rest)
  | '+' :: rest => (false, rest)
  | cs => (false, cs)

/-- A whole number, which has to fit in 64 bits. -/
def integer? (base : Nat) (negative : Bool) (cs : List Char) : Option Value := do
  let (digits, rest) ← takeDigits base (base != 10) cs
  guard rest.isEmpty
  let magnitude : Int := ofDigits base digits
  let value := if negative then -magnitude else magnitude
  guard (-0x8000000000000000 ≤ value ∧ value < 0x8000000000000000)
  return .number value

/-- Reading of tokens. -/
abbrev Parse := StateT (List Token) Option

namespace Parse

def next : Parse Token := fun
  | [] => none
  | token :: rest => some (token, rest)

def nextIf (p : Token → Bool) : Parse Bool := fun
  | [] => some (false, [])
  | token :: rest => if p token then some (true, rest) else some (false, token :: rest)

def eat (token : Token) : Parse Bool := nextIf (· == token)

def expect (token : Token) : Parse Unit := do
  if ← eat token then return ()
  failure

def isBlank : Token → Bool
  | .blank _ => true
  | _ => false

def blanks : Parse Unit := do
  let _ ← nextIf isBlank

def word : Parse String := do
  match ← next with
  | .word text => return text
  | _ => failure

def lineEnd : Parse Unit := fun
  | [] => some ((), [])
  | .newline :: rest => some ((), rest)
  | _ => none

def comment : Parse Bool := do
  if ← eat .comment then
    lineEnd
    return true
  return false

/-- What may stand behind a value or a header. -/
def restOfLine : Parse Unit := do
  blanks
  if ← comment then return ()
  lineEnd

/-- Blanks, comments and line ends inside an array. -/
def arrayGap : Parse Unit := fun tokens => skip (tokens.length + 1) tokens
where
  skip : Nat → Parse Unit
    | 0 => return ()
    | fuel + 1 => do
      blanks
      if ← eat .newline then skip fuel
      else if ← comment then skip fuel
      else return ()

/-- One part of a key. -/
def key : Parse String := do
  match ← next with
  | .word text => return text
  | .text value false => return value
  | _ => failure

/-- Parts of a key with dots between them, at most `fuel` more. -/
def moreKeys : Nat → Parse (List String)
  | 0 => failure
  | fuel + 1 => do
    blanks
    if ← eat .period then
      blanks
      let part ← key
      return part :: (← moreKeys fuel)
    return []

def dottedKey : Parse (List String) := do
  let first ← key
  let rest ← moreKeys ((← get).length + 1)
  return first :: rest

/-- The part of a float that is no whole number: a fraction and an exponent. -/
def floatTail (suffix : List Char) : Parse Value := do
  match suffix with
  | [] => return .other
  | e :: exponent =>
    guard (e == 'e' || e == 'E')
    let exponent ← if exponent.isEmpty then do
        let _ ← eat .plus
        let digits ← word
        pure digits.toList
      else pure (dropSign exponent).2
    let (_, rest) ← takeDigits 10 true exponent
    guard rest.isEmpty
    return .other

/-- A number that begins with a word. -/
def number (text : String) : Parse Value := do
  match text.toList with
  | '0' :: 'x' :: digits => integer? 16 false digits
  | '0' :: 'o' :: digits => integer? 8 false digits
  | '0' :: 'b' :: digits => integer? 2 false digits
  | cs =>
    let (negative, magnitude) := dropSign cs
    if cs.contains 'e' || cs.contains 'E' then
      let (_, suffix) ← takeDigits 10 false magnitude
      floatTail suffix
    else if ← eat .period then
      let (_, rest) ← takeDigits 10 false magnitude
      guard rest.isEmpty
      let (_, suffix) ← takeDigits 10 true (← word).toList
      floatTail suffix
    else if magnitude == "inf".toList || magnitude == "nan".toList then return .other
    else integer? 10 negative magnitude

/-- A time, or a date and a time. Its parts are words. -/
def dateTime (colonRead : Bool) : Parse Value := do
  let tokens ← get
  match tokens with
  | .blank " " :: .word _ :: rest => set rest
  | _ => pure ()
  if colonRead || (← eat .colon) then
    let _ ← word
    expect .colon
    let _ ← word
    if ← eat .period then let _ ← word
    if ← eat .plus then let _ ← word
    if ← eat .colon then let _ ← word
  return .other

/-- Dates and times are told from numbers by a letter or a hyphen. -/
def looksDated (cs : List Char) : Bool :=
  cs.contains 'T' || cs.contains 't' ||
    ((cs.drop 1).contains '-' && !hasPair 'e' cs && !hasPair 'E' cs)
where
  hasPair (e : Char) : List Char → Bool
    | a :: b :: rest => (a == e && b == '-') || hasPair e (b :: rest)
    | _ => false

def wordValue (text : String) : Parse Value := do
  let cs := text.toList
  if text = "true" then return .flag true
  if text = "false" then return .flag false
  guard (text = "inf" || text = "nan" || cs.head?.any fun c => c == '-' || c.isDigit)
  if looksDated cs then dateTime false
  else if ← eat .colon then dateTime true
  else number text

mutual

/-- A value, nested at most `fuel` deep. -/
def value : Nat → Parse Value
  | 0 => failure
  | fuel + 1 => do
    match ← next with
    | .text value _ => return .text value
    | .word text => wordValue text
    | .plus => number (← word)
    | .leftBracket =>
      arrayGap
      return .list (← items fuel)
    | .leftBrace =>
      blanks
      if ← eat .rightBrace then return .table false []
      return .table false (← fields fuel [])
    | _ => failure

def items : Nat → Parse (List Value)
  | 0 => failure
  | fuel + 1 => do
    if ← eat .rightBracket then return []
    let item ← value fuel
    arrayGap
    if ← eat .comma then
      arrayGap
      return item :: (← items fuel)
    expect .rightBracket
    return [item]

def fields : Nat → Fields → Parse Fields
  | 0, _ => failure
  | fuel + 1, done => do
    let keys ← dottedKey
    blanks
    expect .equals
    blanks
    let item ← value fuel
    let done ← addDotted done item keys
    blanks
    if ← eat .rightBrace then return done
    expect .comma
    blanks
    fields fuel done

end

/-- A table header behind its first bracket. -/
def header : Parse Section := do
  let isArray ← eat .leftBracket
  blanks
  let keys ← dottedKey
  expect .rightBracket
  if isArray then expect .rightBracket
  restOfLine
  return { header := keys, isArray, fields := [] }

def keyValue (fields : Fields) : Parse Fields := do
  let keys ← dottedKey
  blanks
  expect .equals
  blanks
  let item ← value ((← get).length + 1)
  restOfLine
  addDotted fields item keys

def sections : Nat → Section → Parse (List Section)
  | 0, _ => failure
  | fuel + 1, current => do
    arrayGap
    match ← get with
    | [] => return [current]
    | .leftBracket :: rest =>
      set rest
      let following ← header
      return current :: (← sections fuel following)
    | _ =>
      let fields ← keyValue current.fields
      sections fuel { current with fields }

end Parse

/-- What is known of headers that were met: each with whether it heads an array. -/
abbrev Headers := List (List String × Bool)

/-- Whether `inner` leads to something inside `outer`. -/
def isInside (outer inner : List String) : Bool := outer.isPrefixOf inner && outer != inner

/-- A table has one header. The elements of an array share theirs, and each begins anew. -/
def addHeader (known : Headers) (met : Section) : Option Headers :=
  match known.lookup met.header with
  | some true =>
    if met.isArray then some (known.filter (!isInside met.header ·.1)) else none
  | some false => none
  | none =>
    if met.isArray && known.any (isInside met.header ·.1) then none
    else some ((met.header, met.isArray) :: known)

def sections (text : String) : Option (List Section) := do
  let tokens ← tokenize text
  let (found, _) ← (Parse.sections (tokens.length + 1) ⟨[], false, []⟩).run tokens
  let _ ← (found.drop 1).foldlM addHeader []
  return found

end TypeAtlas.Toml
