import TypeAtlas.Decimal.Binary

/-!
The shortest decimal that reads back as a given binary number, written positionally.
Among decimals of that length the nearest is taken, and of two equally near the larger.
-/

namespace TypeAtlas.Decimal

/-- The number `digits · 10^exp`. -/
structure Scaled where
  digits : Nat
  exp : Int
deriving DecidableEq

/-- Compare `a · 10^i` with `n · 2^j`. -/
def compareScaled (a : Nat) (i : Int) (n : Nat) (j : Int) : Ordering :=
  compare (a * power 10 i.toNat * power 2 (-j).toNat) (n * power 2 j.toNat * power 10 (-i).toNat)

/-- Whether a decimal lies among the reals that round to `x`. The ends of that interval
count when `m` is even. -/
def Magnitude.readsBack (x : Magnitude) (d : Scaled) : Bool :=
  let low := compareScaled d.digits d.exp (4 * x.m - if x.narrowBelow then 1 else 2) (x.q - 2)
  let high := compareScaled d.digits d.exp (4 * x.m + 2) (x.q - 2)
  let ends := x.m % 2 == 0
  (low == .gt || (ends && low == .eq)) && (high == .lt || (ends && high == .eq))

/-- The largest multiple of `10^e` that is at most `x`. -/
def Magnitude.floorAt (x : Magnitude) (e : Int) : Nat :=
  x.m * power 2 x.q.toNat * power 10 (-e).toNat / (power 2 (-x.q).toNat * power 10 e.toNat)

/-- The least `k` with `x < 10^k`, for a number of at least `10^-400`. -/
def Magnitude.scale (x : Magnitude) : Int :=
  (Nat.toDigits 10 (x.floorAt (-400))).length - 400

/-- The nearer neighbour of `x` on the grid of `10^e`, if one reads back. -/
def Magnitude.onGrid (x : Magnitude) (e : Int) : Option Scaled :=
  let below : Scaled := ⟨x.floorAt e, e⟩
  let above : Scaled := ⟨x.floorAt e + 1, e⟩
  match x.readsBack below, x.readsBack above with
  | true, true =>
    if compareScaled (2 * below.digits + 1) e (2 * x.m) x.q == .gt then some below else some above
  | true, false => some below
  | false, true => some above
  | false, false => none

/-- The value of `x` itself. -/
def Magnitude.exact (x : Magnitude) : Scaled :=
  ⟨x.m * power 2 x.q.toNat * power 5 (-x.q).toNat, min x.q 0⟩

/-- Grids of one to seventeen digits are tried in turn. -/
def Magnitude.shortest (x : Magnitude) : Scaled :=
  let k := x.scale
  ((List.range 17).findSome? fun (n : Nat) => x.onGrid (k - 1 - n)).getD x.exact

/-- Drop zeros behind the point, at most `n` of them. -/
def Scaled.stripped : Nat → Scaled → Scaled
  | 0, d => d
  | n + 1, d => if d.exp < 0 ∧ d.digits % 10 = 0 then stripped n ⟨d.digits / 10, d.exp + 1⟩ else d

/-- All digits, with a point where one is needed. -/
def Scaled.positional (d : Scaled) : List Char :=
  let places := (-d.exp).toNat
  let d := d.stripped places
  let cs := Nat.toDigits 10 d.digits
  let places := (-d.exp).toNat
  if places = 0 then cs ++ List.replicate d.exp.toNat '0'
  else
    let cs := List.replicate (places + 1 - cs.length) '0' ++ cs
    cs.take (cs.length - places) ++ '.' :: cs.drop (cs.length - places)

def Magnitude.text (x : Magnitude) : String :=
  if x.m = 0 then "0" else String.ofList x.shortest.positional

/-- The text of a number: the sign is kept on zero and infinity. -/
def Reading.text : Reading → String
  | .notANumber => "NaN"
  | .infinite negative => if negative then "-inf" else "inf"
  | .finite negative x => (if negative then "-" else "") ++ x.text

end TypeAtlas.Decimal
