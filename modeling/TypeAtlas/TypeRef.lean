import TypeAtlas.ArrayShape
import TypeAtlas.Builtin

/-!
A type as it is written at some place: a builtin type or a name with generic arguments,
each with an array part. Nothing is said about what the name stands for.
-/

namespace TypeAtlas

inductive TypeRef where
  | builtin (type : Builtin) (array : Option ArrayShape)
  | named (name : String) (args : List TypeRef) (array : Option ArrayShape)
deriving Repr

namespace TypeRef

def array : TypeRef → Option ArrayShape
  | builtin _ array | named _ _ array => array

def args : TypeRef → List TypeRef
  | builtin _ _ => []
  | named _ args _ => args

def withArray (array : Option ArrayShape) : TypeRef → TypeRef
  | builtin type _ => builtin type array
  | named name args _ => named name args array

/-- One more pair of brackets behind the type. -/
def pushRank (rank : Nat) (ref : TypeRef) : TypeRef :=
  ref.withArray (some (ArrayShape.push ref.array rank))

mutual

def text : TypeRef → String
  | .builtin type array => type.keyword ++ ArrayShape.suffixOf array
  | .named name [] array => name ++ ArrayShape.suffixOf array
  | .named name (first :: rest) array =>
    name ++ "<" ++ Text.joinWith ", " (first.text :: textEach rest) ++ ">" ++
      ArrayShape.suffixOf array

def textEach : List TypeRef → List String
  | [] => []
  | ref :: refs => ref.text :: textEach refs

end

end TypeRef

end TypeAtlas
