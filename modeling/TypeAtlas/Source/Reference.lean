import TypeAtlas.Source.Unit

/-!
Reading a type that is written on its own. The text is put where the type of a field
stands; the type of the first variable declared there is the one meant.
-/

namespace TypeAtlas.TypeRef

/-- The path that messages give for a type written on its own. -/
def referencePath : String := "<reference>"

/-- The document around a type. -/
def host (text : String) : String := "class __Reference \x7b " ++ text ++ " __value; \x7d"

/-- The type a text stands for. -/
def parse (text : String) : Except Malformed TypeRef :=
  match (Source.Document.read referencePath (host text)).declared with
  | some tree => tree.toRef referencePath
  | none => .error (.notAType text)

end TypeAtlas.TypeRef
