import TypeAtlas.Text.Cut

/-!
Paths with `/` between their components. Empty components and single dots name nothing
and are passed by.
-/

namespace TypeAtlas.Text.Path

/-- The text cut at every slash. -/
def pieces : List Char → List (List Char)
  | [] => [[]]
  | c :: cs =>
    if c = '/' then [] :: pieces cs
    else match pieces cs with
      | [] => [[c]]
      | piece :: rest => (c :: piece) :: rest

def components (path : String) : List String :=
  ((pieces path.toList).filter fun piece => piece != [] && piece != ['.']).map String.ofList

/-- The last component; stepping up is no name. -/
def fileName? (path : String) : Option String :=
  (components path).getLast?.filter (· != "..")

/-- What stands behind the last dot of the name. A name that begins with its only dot
has no extension. -/
def extension? (path : String) : Option String := do
  let name ← fileName? path
  let (stem, extension) ← cutLast '.' name
  if stem.isEmpty then none else some extension

/-- Whether the name is that of a C# source file. -/
def isSource (path : String) : Bool := extension? path == some "cs"

end TypeAtlas.Text.Path
