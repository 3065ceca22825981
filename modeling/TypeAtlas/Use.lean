import TypeAtlas.ArrayShape
import TypeAtlas.Builtin

/-!
A type at a place where it is used, resolved: a declaration with its arguments, a builtin
type, or a generic parameter of what surrounds the place.
-/

namespace TypeAtlas

/-- The number of a declaration in its graph, counted from zero as they are registered. -/
abbrev DeclId := Nat

/-- What a generic parameter belongs to. -/
inductive ParamOwner where
  | type | method
deriving DecidableEq, Repr

inductive Use where
  | declared (id : DeclId) (args : List Use) (array : Option ArrayShape)
  | builtin (type : Builtin) (array : Option ArrayShape)
  | param (name : String) (position : Nat) (owner : ParamOwner) (array : Option ArrayShape)
deriving Repr

namespace Use

def array : Use → Option ArrayShape
  | declared _ _ array | builtin _ array | param _ _ _ array => array

def withArray (array : Option ArrayShape) : Use → Use
  | declared id args _ => declared id args array
  | builtin type _ => builtin type array
  | param name position owner _ => param name position owner array

/-- An array of what is used. -/
def wrapRank (rank : Nat) (use : Use) : Use :=
  use.withArray (some (ArrayShape.wrap use.array rank))

def args : Use → List Use
  | declared _ args _ => args
  | builtin .. | param .. => []

/-- The declaration with other arguments. Builtin types and parameters take none. -/
def withArgs (args : List Use) : Use → Use
  | declared id _ array => declared id args array
  | builtin type array => builtin type array
  | param name position owner array => param name position owner array

/-- The declaration that is used, if it is one. -/
def target? : Use → Option DeclId
  | declared id _ _ => some id
  | builtin .. | param .. => none

def isBuiltin : Use → Bool
  | builtin .. => true
  | declared .. | param .. => false

mutual

/-- All declarations in a use, its own first and then those of its arguments. -/
def targets : Use → List DeclId
  | .declared id args _ => id :: targetsEach args
  | .builtin .. | .param .. => []

def targetsEach : List Use → List DeclId
  | [] => []
  | use :: uses => use.targets ++ targetsEach uses

end

/-- The simple name of what is used, where `nameOf` names declarations. -/
def name (nameOf : DeclId → String) : Use → String
  | declared id _ _ => nameOf id
  | builtin type _ => type.keyword
  | param name _ _ _ => name

mutual

/-- The use as it is written in source, where `nameOf` names declarations. -/
def display (nameOf : DeclId → String) : Use → String
  | .declared id [] array => nameOf id ++ ArrayShape.suffixOf array
  | .declared id (first :: rest) array =>
    nameOf id ++ "<" ++ Text.joinWith ", " (first.display nameOf :: displayEach nameOf rest) ++ ">" ++
      ArrayShape.suffixOf array
  | .builtin type array => type.keyword ++ ArrayShape.suffixOf array
  | .param name _ _ array => name ++ ArrayShape.suffixOf array

def displayEach (nameOf : DeclId → String) : List Use → List String
  | [] => []
  | use :: uses => use.display nameOf :: displayEach nameOf uses

end

end Use

end TypeAtlas
