import TypeAtlas.Source.Literal

/-!
The smallest parts of C# source: blanks, notes, words, literals and marks. Cutting a text
into pieces loses nothing, the pieces joined again are the text.
-/

namespace TypeAtlas.Source

/-- A piece of source text. A note is a comment or a directive, which may stand between
any two tokens. -/
inductive Piece where
  | blank (text : List Char)
  | note (node : String) (text : List Char)
  | word (text : List Char)
  | literal (text : List Char)
  | mark (text : List Char)
deriving Repr, DecidableEq

namespace Piece

def text : Piece → List Char
  | blank text | note _ text | word text | literal text | mark text => text

/-- Characters that may stand between tokens. -/
def isGap (c : Char) : Bool :=
  c == ' ' || ('\t' ≤ c && c ≤ '\r') || c == Char.ofNat 0xa0 || c == Char.ofNat 0xfeff ||
    c == Char.ofNat 0x3000

/-- Marks of two characters. Angle brackets, question marks and asterisks always stand
alone, because type arguments close and nullable types end with them. -/
def doubleMarks : List (List Char) :=
  ["=>", "::", "->", "..", "&&", "||", "++", "--", "==", "!=", "+=", "-=", "*=", "/=", "%=",
    "&=", "|=", "^="].map String.toList

def singleMarks : List Char := "\x7b\x7d()[];,.:?<>=+-*/%&|^!~".toList

/-- Directives that stand on a line of their own and have no effect. -/
def lineDirectives : List String :=
  ["region", "endregion", "nullable", "pragma", "define", "undef", "line", "error", "warning"]

/-- The word of a directive behind its hash mark, and what follows. -/
def directiveWord (cs : List Char) : String × List Char :=
  let cs := cs.dropWhile fun c => c == ' ' || c == '\t'
  (String.ofList (cs.takeWhile Text.isAsciiLetter), cs.dropWhile Text.isAsciiLetter)

/-- What follows the conditional region that is open `depth` times over. Comments and
literals inside it hide their hash marks. -/
def skipRegion : Nat → Nat → List Char → Option (List Char)
  | 0, _, _ => none
  | _, _, [] => none
  | fuel + 1, depth, c :: cs =>
    if c = '#' then
      let (name, rest) := directiveWord cs
      if name = "if" then skipRegion fuel (depth + 1) rest
      else if name = "endif" then
        match depth with
        | 0 => some rest
        | depth + 1 => skipRegion fuel depth rest
      else skipRegion fuel depth rest
    else if c = '/' ∧ cs.head? = some '/' then
      skipRegion fuel depth (cs.dropWhile (· != '\n'))
    else if c = '/' ∧ cs.head? = some '*' then
      match Literal.comment (cs.drop 1) with
      | some rest => skipRegion fuel depth rest
      | none => none
    else if c = '"' ∨ c = '@' ∨ c = '$' then
      match Literal.string (cs.length + 2) (c :: cs) with
      | some rest => skipRegion fuel depth rest
      | none => skipRegion fuel depth cs
    else skipRegion fuel depth cs

/-- The characters by which `rest` is shorter than `cs`. -/
def upTo (cs rest : List Char) : List Char := cs.take (cs.length - rest.length)

/-- A directive from behind its hash mark, with the kind of its node. -/
def directive (cs : List Char) : Option (String × List Char) :=
  let (name, rest) := directiveWord cs
  if name = "if" then (skipRegion rest.length 0 rest).map ("preproc_if", ·)
  else if lineDirectives.contains name then
    match rest.dropWhile (· != '\n') with
    | [] => none
    | _ :: rest => some ("preproc_" ++ name, rest)
  else none

/-- What follows the first piece of the text, and how the piece is classified. -/
def split : List Char → Option ((List Char → Piece) × List Char)
  | [] => none
  | c :: cs =>
    if isGap c then some (.blank, cs.dropWhile isGap)
    else if Text.isNameStart c then some (.word, cs.dropWhile Text.isNamePart)
    else if Text.isAsciiDigit c then some (.literal, Literal.number (c :: cs))
    else if c = '/' ∧ cs.head? = some '/' then
      some (.note "comment", cs.dropWhile fun x => x != '\n' && x != '\r')
    else if c = '/' ∧ cs.head? = some '*' then
      (Literal.comment (cs.drop 1)).map (.note "comment", ·)
    else if c = '#' then (directive cs).map fun (node, rest) => (.note node, rest)
    else if c = '@' ∧ cs.head?.any Text.isNameStart then
      some (.word, cs.dropWhile Text.isNamePart)
    else if c = '.' ∧ cs.head?.any Text.isAsciiDigit then
      some (.literal, Literal.number (c :: cs))
    else if c = '\'' then (Literal.character cs).map (.literal, ·)
    else if c = '"' ∨ c = '@' ∨ c = '$' then
      (Literal.string (cs.length + 2) (c :: cs)).map fun rest => (.literal, Literal.dropSuffix rest)
    else if doubleMarks.contains (c :: cs.take 1) then some (.mark, cs.drop 1)
    else if singleMarks.contains c then some (.mark, cs)
    else none

/-- The pieces of a text, at most `fuel` of them. -/
def cut : Nat → List Char → Option (List Piece)
  | _, [] => some []
  | 0, _ => none
  | fuel + 1, cs => do
    let (piece, rest) ← split cs
    let pieces ← cut fuel rest
    pure (piece (upTo cs rest) :: pieces)

/-- Every piece takes a character, so the length of the text is fuel enough. -/
def ofText (cs : List Char) : Option (List Piece) := cut cs.length cs

end Piece

end TypeAtlas.Source
