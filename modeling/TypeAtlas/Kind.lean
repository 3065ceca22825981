/-!
The kinds of declarations, and how a full name is put together.
-/

namespace TypeAtlas

inductive Kind where
  | interfaceType | classType | structType | enumType
deriving DecidableEq, Repr

def Kind.word : Kind → String
  | interfaceType => "interface"
  | classType => "class"
  | structType => "struct"
  | enumType => "enum"

/-- The name behind its namespace; alone in the global one. -/
def qualify (ns name : String) : String := if ns.isEmpty then name else ns ++ "." ++ name

end TypeAtlas
