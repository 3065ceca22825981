import TypeAtlas.Source.Piece

/-!
Tokens of C# source. A token knows where it stands and what was passed since the token
before it, so that any run of tokens gives back the text it covers.
-/

namespace TypeAtlas.Source

/-- A comment or directive in front of a token. -/
structure Note where
  node : String
  text : String
  start : Nat
deriving Repr, DecidableEq

inductive TokenClass where
  | word | literal | mark
deriving Repr, DecidableEq

structure Token where
  kind : TokenClass
  text : String
  /-- Characters of the source before the token. -/
  start : Nat
  /-- Everything between the token before and this one. -/
  gap : String
  /-- The comments and directives in the gap. -/
  notes : List Note
deriving Repr, DecidableEq

/-- The position behind the token. -/
def Token.stop (token : Token) : Nat := token.start + token.text.length

/-- The text from the first token to the last, gaps included. -/
def textOf : List Token → String
  | [] => ""
  | first :: rest => first.text ++ String.join (rest.map fun token => token.gap ++ token.text)

/-- Gather pieces into tokens. `gap` and `notes` are what was passed since the last token,
`position` is where the next piece starts. -/
def gather (position : Nat) (gap : List Char) (notes : List Note) : List Piece → List Token
  | [] => []
  | piece :: pieces =>
    let next := position + piece.text.length
    let token (kind : TokenClass) : Token :=
      ⟨kind, String.ofList piece.text, position, String.ofList gap, notes⟩
    match piece with
    | .blank text => gather next (gap ++ text) notes pieces
    | .note node text =>
      gather next (gap ++ text) (notes ++ [⟨node, String.ofList text, position⟩]) pieces
    | .word _ => token .word :: gather next [] [] pieces
    | .literal _ => token .literal :: gather next [] [] pieces
    | .mark _ => token .mark :: gather next [] [] pieces

/-- The tokens of a text; `none` where some part of it belongs to no token. -/
def tokenize (text : String) : Option (List Token) :=
  (Piece.ofText text.toList).map (gather 0 [] [])

end TypeAtlas.Source
