/-!
Hexadecimal numbers as they appear in messages: lower case, after `0x`, padded
with zeros to a fixed number of digits.
-/

namespace TypeAtlas.Text

/-- The digits of `n` in base sixteen, at least `digits` of them. -/
def hexDigits (digits n : Nat) : String :=
  let cs := Nat.toDigits 16 n
  String.ofList (List.replicate (digits - cs.length) '0' ++ cs)

def hex (digits n : Nat) : String := "0x" ++ hexDigits digits n

end TypeAtlas.Text
