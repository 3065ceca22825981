import TypeAtlas.Text.Hex
import TypeAtlas.Text.HiddenTable
import TypeAtlas.Text.NameChar

/-!
Text written as a literal. Attribute values keep printable ASCII only; the summary of
a module shows every character that has a glyph of its own.
-/

namespace TypeAtlas.Text

/-- The code point in braces, for characters that are not shown as they are. -/
def codeEscape (c : Char) : List Char :=
  ['\\', 'u', '\x7b'] ++ Nat.toDigits 16 c.toNat ++ ['\x7d']

/-- One character of an attribute literal: the usual escapes, printable ASCII as it is,
everything else by its code. -/
def literalChar (c : Char) : List Char :=
  if c = '\t' then ['\\', 't']
  else if c = '\r' then ['\\', 'r']
  else if c = '\n' then ['\\', 'n']
  else if c = '\'' ∨ c = '"' ∨ c = '\\' then ['\\', c]
  else if 0x20 ≤ c.toNat ∧ c.toNat ≤ 0x7e then [c]
  else codeEscape c

/-- The inside of an attribute literal. -/
def literalText (s : String) : String := String.ofList (s.toList.flatMap literalChar)

/-- One character of a shown text: characters with a glyph stay. -/
def shownChar (c : Char) : List Char :=
  if c = Char.ofNat 0 then ['\\', '0']
  else if c = '\t' then ['\\', 't']
  else if c = '\r' then ['\\', 'r']
  else if c = '\n' then ['\\', 'n']
  else if c = '"' ∨ c = '\\' then ['\\', c]
  else if c.toNat < 0x20 then codeEscape c
  else if c.toNat < 0x7f then [c]
  else if inRanges hiddenRanges c.toNat then codeEscape c
  else [c]

/-- A text in quotes. -/
def shown (s : String) : String :=
  String.ofList ('"' :: s.toList.flatMap shownChar ++ ['"'])

end TypeAtlas.Text
