/-!
Reading an unsigned 64-bit number written in decimal digits, with an optional
plus sign in front.
-/

namespace TypeAtlas.Text

def digitValue (c : Char) : Option Nat :=
  if '0' ≤ c ∧ c ≤ '9' then some (c.toNat - '0'.toNat) else none

/-- The value of a run of digits, appended to the digits read so far. -/
def digitsValue : Nat → List Char → Option Nat
  | value, [] => some value
  | value, c :: cs => (digitValue c).bind fun d => digitsValue (10 * value + d) cs

/-- At least one digit, and a value that fits in 64 bits. -/
def wordOfDigits (cs : List Char) : Option Nat :=
  if cs.isEmpty then none
  else (digitsValue 0 cs).filter (· < 0x10000000000000000)

def readWord : List Char → Option Nat
  | '+' :: cs => wordOfDigits cs
  | cs => wordOfDigits cs

end TypeAtlas.Text
