/-!
Binary floating-point numbers given by their bits, read as `m · 2^q`. Everything that
follows is exact arithmetic on natural numbers.
-/

namespace TypeAtlas.Decimal

/-- The widths of the fraction and exponent fields below the sign bit. -/
structure Format where
  fraction : Nat
  exponent : Nat

/-- Four-byte numbers. -/
def single : Format := ⟨23, 8⟩

/-- Eight-byte numbers. -/
def double : Format := ⟨52, 11⟩

/-- The product of `n` equal factors. -/
def power (base n : Nat) : Nat := Nat.pow base n

/-- A finite magnitude `m · 2^q`. Below a power of two the gap to the next smaller
number is half the gap above. -/
structure Magnitude where
  m : Nat
  q : Int
  narrowBelow : Bool

inductive Reading where
  | notANumber
  | infinite (negative : Bool)
  | finite (negative : Bool) (magnitude : Magnitude)

/-- What the bits stand for. -/
def Format.read (f : Format) (bits : Nat) : Reading :=
  let fraction := bits % power 2 f.fraction
  let exponent := bits / power 2 f.fraction % power 2 f.exponent
  let negative := bits / power 2 (f.fraction + f.exponent) % 2 == 1
  let lowest : Int := 2 - power 2 (f.exponent - 1) - f.fraction
  if exponent = power 2 f.exponent - 1 then
    if fraction = 0 then .infinite negative else .notANumber
  else if exponent = 0 then .finite negative ⟨fraction, lowest, false⟩
  else .finite negative
    ⟨power 2 f.fraction + fraction, lowest + exponent - 1, fraction == 0 && exponent > 1⟩

end TypeAtlas.Decimal
