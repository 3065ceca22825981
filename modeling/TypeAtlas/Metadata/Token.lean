import TypeAtlas.Metadata.Compressed

/-!
Type tokens: a row of one of the three tables that stand for types. A token is coded in
32 bits with its table in the two lowest.
-/

namespace TypeAtlas.Metadata

/-- A row of the type definitions, references or specifications. Rows count from one;
nothing is said about whether the row exists. -/
inductive Token where
  | definition (row : Nat)
  | reference (row : Nat)
  | specification (row : Nat)
deriving DecidableEq, Repr

namespace Token

def row : Token → Nat
  | definition row | reference row | specification row => row

def tag : Token → Nat
  | definition _ => 0
  | reference _ => 1
  | specification _ => 2

/-- High bits of a row that does not fit are lost. -/
def code (token : Token) : Nat := token.row * 4 % 0x100000000 + token.tag

def ofCode (coded : Nat) : Except Malformed Token :=
  match coded % 4 with
  | 0 => .ok (definition (coded / 4))
  | 1 => .ok (reference (coded / 4))
  | 2 => .ok (specification (coded / 4))
  | _ => .error (.tokenTag coded)

def read : Read Token := do
  let coded ← readCompressed
  MonadExcept.ofExcept (ofCode coded)

def write (token : Token) : Except Malformed Bytes := writeCompressed token.code

end Token

end TypeAtlas.Metadata
