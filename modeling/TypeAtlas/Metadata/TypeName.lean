import TypeAtlas.Text.Blank
import TypeAtlas.Text.Cut
import TypeAtlas.Text.Number

/-!
Names of types as modules store them. A generic type carries the number of its
parameters behind a backtick, and a type as a value is one serialized text with its
arguments and assembly in brackets.
-/

namespace TypeAtlas.Metadata

/-- A name and the number behind its last backtick. Where no number stands there, the
whole text is the name. -/
def splitArity (raw : String) : String × Nat :=
  match Text.splitLast '`' raw.toList with
  | some (name, digits) =>
    match Text.readWord digits with
    | some arity => (String.ofList name, arity)
    | none => (raw, 0)
  | none => (raw, 0)

/-- The stored name of a type with `arity` generic parameters. -/
def markArity (name : String) (arity : Nat) : String :=
  if arity = 0 then name else name ++ "`" ++ toString arity

/-- Namespace and name, divided at the last dot. -/
def splitNamespace (fullName : String) : String × String :=
  (Text.cutLast '.' fullName).getD ("", fullName)

namespace TypeName

def endsName (c : Char) : Bool := c == '[' || c == ']' || c == ','

/-- What follows the bracket that closes the current level, `depth` further ones being
open. -/
def skipClosing : Nat → List Char → List Char
  | _, [] => []
  | depth, c :: cs =>
    if c = '[' then skipClosing (depth + 1) cs
    else if c = ']' then
      match depth with
      | 0 => cs
      | depth + 1 => skipClosing depth cs
    else skipClosing depth cs

/-- The array brackets in front of the text, and the rest. -/
def takeBrackets : Nat → List Char → List Char × List Char
  | fuel + 1, '[' :: c :: cs =>
    if c = ']' ∨ c = ',' then
      let head := '[' :: (c :: cs).takeWhile (· != ']')
      match (c :: cs).dropWhile (· != ']') with
      | [] => (head, [])
      | close :: rest =>
        let (more, rest) := takeBrackets fuel rest
        (head ++ close :: more, rest)
    else ([], '[' :: c :: cs)
  | _, cs => ([], cs)

/-- The plain name: no blanks around it, no arity, nested types behind a dot. -/
def plain (cs : List Char) : List Char :=
  let (name, _) := splitArity (String.ofList (Text.trimChars cs))
  name.toList.map fun c => if c = '+' then '.' else c

def dropIf (c : Char) : List Char → List Char
  | [] => []
  | x :: xs => if x = c then xs else x :: xs

mutual

/-- One serialized name from the front of the text, as it is written in source. -/
def convert : Nat → List Char → List Char × List Char
  | 0, cs => ([], cs)
  | fuel + 1, cs =>
    let name := plain (cs.takeWhile (!endsName ·))
    let cs := cs.dropWhile (!endsName ·)
    let (name, cs) :=
      match cs with
      | '[' :: '[' :: cs =>
        let (args, cs) := convertArgs fuel ('[' :: cs)
        (name ++ '<' :: (Text.joinWith ", " (args.map String.ofList)).toList ++ ['>'],
          dropIf ']' cs)
      | cs => (name, cs)
    let (brackets, cs) := takeBrackets cs.length cs
    (name ++ brackets, cs)

/-- The bracketed arguments in front of the text. Whatever follows the name of an
argument in its brackets is dropped. -/
def convertArgs : Nat → List Char → List (List Char) × List Char
  | fuel + 1, '[' :: cs =>
    let (arg, cs) := convert fuel cs
    let (args, cs) := convertArgs fuel (dropIf ',' (skipClosing 0 cs))
    (arg :: args, cs)
  | _, cs => ([], cs)

end

/-- A serialized type name as it is written in source. Every level of nesting takes a
character, so the length of the text is fuel enough. -/
def written (serialized : String) : String :=
  let cs := serialized.toList
  String.ofList (convert (cs.length + 1) cs).1

end TypeName

end TypeAtlas.Metadata
