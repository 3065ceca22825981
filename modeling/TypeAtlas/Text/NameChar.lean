import TypeAtlas.Text.NameTable

/-!
Which characters may begin a name and which may follow in it. A name begins with a
member of `XID_Start` or an underscore and goes on with members of `XID_Continue`.
-/

namespace TypeAtlas.Text

/-- Whether a code point lies in one of the ranges. -/
def inRanges : List Nat → Nat → Bool
  | outside :: inside :: rest, code =>
    outside ≤ code && (code < outside + inside || inRanges rest (code - (outside + inside)))
  | _, _ => false

def isAsciiLetter (c : Char) : Bool := ('a' ≤ c && c ≤ 'z') || ('A' ≤ c && c ≤ 'Z')

def isAsciiDigit (c : Char) : Bool := '0' ≤ c && c ≤ '9'

/-- Whether a name may begin with `c`. The table is consulted beyond ASCII only. -/
def isNameStart (c : Char) : Bool :=
  if c.toNat < 0x80 then isAsciiLetter c || c == '_' else inRanges nameStartRanges c.toNat

/-- Whether a name may go on with `c`. -/
def isNamePart (c : Char) : Bool :=
  if c.toNat < 0x80 then isAsciiLetter c || isAsciiDigit c || c == '_'
  else inRanges nameStartRanges c.toNat || inRanges nameExtraRanges c.toNat

theorem isNamePart_of_isNameStart {c : Char} (hc : isNameStart c = true) : isNamePart c = true := by
  unfold isNameStart at hc
  unfold isNamePart
  split at hc <;> simp_all
  rcases hc with hc | hc <;> simp [hc]

end TypeAtlas.Text
