import TypeAtlas.Text.Cut

/-!
The array part of a type: one rank per pair of brackets, the outermost first.
-/

namespace TypeAtlas

structure ArrayShape where
  ranks : List Nat
deriving DecidableEq, Repr

namespace ArrayShape

/-- One more pair of brackets at the end of the written type. -/
def push (shape : Option ArrayShape) (rank : Nat) : ArrayShape :=
  ⟨(shape.map ranks).getD [] ++ [rank]⟩

/-- An array around what is already an array: its brackets are written first. -/
def wrap (shape : Option ArrayShape) (rank : Nat) : ArrayShape :=
  ⟨rank :: (shape.map ranks).getD []⟩

/-- A pair of brackets with the commas of its rank. -/
def brackets (rank : Nat) : String := "[" ++ Text.repeated ',' (rank - 1) ++ "]"

def suffix (shape : ArrayShape) : String := String.join (shape.ranks.map brackets)

/-- The brackets behind a type, nothing where it is no array. -/
def suffixOf (shape : Option ArrayShape) : String := (shape.map suffix).getD ""

/-- The ranks of `outer` stand before those of `inner`. -/
def join (outer inner : Option ArrayShape) : Option ArrayShape :=
  match outer, inner with
  | none, inner => inner
  | outer, none => outer
  | some a, some b => some ⟨a.ranks ++ b.ranks⟩

end ArrayShape

end TypeAtlas
