import TypeAtlas.Text.CaseTable
import TypeAtlas.Text.NameChar

/-!
Lower case of a whole text. Single characters map by table. A capital sigma at the
end of a word becomes the final form: a cased letter stands before it and none after
it, characters that case ignores being skipped on both sides.
-/

namespace TypeAtlas.Text

/-- The code point that another one maps to in lower case, if not to itself. -/
def lowerCode? (code : Nat) : Option Nat :=
  if alternatingRuns.any fun (first, last) => first ≤ code && code ≤ last && (code - first) % 2 == 0 then
    some (code + 1)
  else loweredSingly.lookup code <|> shiftedRuns.findSome? fun (first, last, target) =>
    if first ≤ code && code ≤ last then some (target + (code - first)) else none

/-- The lower case of one character out of context. Only the dotted capital I takes
two characters. -/
def lowerChar (c : Char) : List Char :=
  if c.toNat < 0x80 then [c.toLower]
  else if c.toNat = 0x130 then ['i', Char.ofNat 0x307]
  else match lowerCode? c.toNat with
    | some code => [Char.ofNat code]
    | none => [c]

/-- Whether the first character that case does not ignore is a cased letter. -/
def meetsCased (cs : List Char) : Bool :=
  match cs.dropWhile fun c => inRanges caseIgnorableRanges c.toNat with
  | [] => false
  | c :: _ => inRanges casedRanges c.toNat

/-- Lower case with the characters already passed at hand, nearest first. -/
def lowerAfter (passed : List Char) : List Char → List Char
  | [] => []
  | c :: cs =>
    let lowered :=
      if c = 'Σ' then [if meetsCased passed && !meetsCased cs then 'ς' else 'σ'] else lowerChar c
    lowered ++ lowerAfter (c :: passed) cs

def lower (s : String) : String := String.ofList (lowerAfter [] s.toList)

end TypeAtlas.Text
