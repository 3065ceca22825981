/-!
Blank characters: the members of the Unicode property `White_Space`. Names are
trimmed of them and lose them altogether when they are written with gaps.
-/

namespace TypeAtlas.Text

/-- The code points with the property `White_Space`. -/
def blankCodes : List Nat :=
  [0x09, 0x0A, 0x0B, 0x0C, 0x0D, 0x20, 0x85, 0xA0, 0x1680, 0x2000, 0x2001, 0x2002, 0x2003,
    0x2004, 0x2005, 0x2006, 0x2007, 0x2008, 0x2009, 0x200A, 0x2028, 0x2029, 0x202F, 0x205F,
    0x3000]

def isBlank (c : Char) : Bool := blankCodes.contains c.toNat

/-- Core's narrower class is part of this one. -/
theorem isBlank_of_isWhitespace {c : Char} (hc : c.isWhitespace = true) : isBlank c = true := by
  simp only [Char.isWhitespace, Bool.or_eq_true, decide_eq_true_eq] at hc
  rcases hc with ((rfl | rfl) | rfl) | rfl <;> decide

def trimChars (cs : List Char) : List Char :=
  ((cs.dropWhile isBlank).reverse.dropWhile isBlank).reverse

def trim (s : String) : String := String.ofList (trimChars s.toList)

/-- Drop every blank. -/
def compact (cs : List Char) : List Char := cs.filter (!isBlank ·)

theorem compact_append (a b : List Char) : compact (a ++ b) = compact a ++ compact b := by
  simp [compact]

end TypeAtlas.Text
