import Mathlib.Tactic.Lemma
import TypeAtlas.Metadata.AttributeValue
import TypeAtlas.Source.Literal

/-!
What literals denote. A literal stands for code units, one or two for each character; a
backslash begins an escape, and only the escapes listed here are ones. Main statement: the
literal that an attribute's text or character is rendered as denotes it exactly where every
character is printable ASCII, a tab or an end of line. Any other character is rendered by its
code in braces, which is no escape, so that the whole is no literal.
-/

namespace TypeAtlas

namespace Source.Literal

def units (code : Nat) : List Nat :=
  if code < 0x10000 then [code]
  else [0xd800 + (code - 0x10000) / 0x400, 0xdc00 + (code - 0x10000) % 0x400]

/-- The code units of a text. -/
def unitsOf (s : String) : List Nat := s.toList.flatMap fun c => units c.toNat

def hexDigit? (c : Char) : Option Nat :=
  if '0' ≤ c ∧ c ≤ '9' then some (c.toNat - '0'.toNat)
  else if 'a' ≤ c ∧ c ≤ 'f' then some (c.toNat - 'a'.toNat + 10)
  else if 'A' ≤ c ∧ c ≤ 'F' then some (c.toNat - 'A'.toNat + 10)
  else none

/-- The number of exactly `n` hexadecimal digits that follow those of `value`. -/
def readHex : Nat → Nat → List Char → Option (Nat × List Char)
  | 0, value, cs => some (value, cs)
  | n + 1, value, c :: cs => (hexDigit? c).bind fun digit => readHex n (16 * value + digit) cs
  | _ + 1, _, [] => none

/-- The number of up to `n` hexadecimal digits that follow those of `value`. -/
def readHexUpTo : Nat → Nat → List Char → Nat × List Char
  | n + 1, value, c :: cs =>
    match hexDigit? c with
    | some digit => readHexUpTo n (16 * value + digit) cs
    | none => (value, c :: cs)
  | _, value, cs => (value, cs)

/-- The escapes of one character and what they stand for. -/
def simpleEscapes : List (Char × Nat) :=
  [('\'', 0x27), ('"', 0x22), ('\\', 0x5c), ('0', 0x00), ('a', 0x07), ('b', 0x08), ('f', 0x0c),
    ('n', 0x0a), ('r', 0x0d), ('t', 0x09), ('v', 0x0b)]

/-- The units that an escape behind its backslash stands for, and the text behind it. -/
def escapeUnits : List Char → Option (List Nat × List Char)
  | 'x' :: cs => (readHex 1 0 cs).map fun (first, rest) =>
    let (value, rest) := readHexUpTo 3 first rest
    ([value], rest)
  | 'u' :: cs => (readHex 4 0 cs).map fun (value, rest) => ([value], rest)
  | 'U' :: cs => (readHex 8 0 cs).bind fun (value, rest) =>
    if value < 0x110000 then some (units value, rest) else none
  | c :: cs => (simpleEscapes.lookup c).map fun value => ([value], cs)
  | [] => none

def endsLine (c : Char) : Bool := [0x0a, 0x0d, 0x85, 0x2028, 0x2029].contains c.toNat

/-- The units of the first character inside of a literal, which is an escape or stands for
itself, and the text behind it. -/
def element? (quote : Char) : List Char → Option (List Nat × List Char)
  | [] => none
  | c :: cs =>
    if c = '\\' then escapeUnits cs
    else if c = quote ∨ endsLine c then none
    else some (units c.toNat, cs)

/-- The inside of a literal denotes some units. -/
inductive Denotes (quote : Char) : List Char → List Nat → Prop
  | nil : Denotes quote [] []
  | cons {inside rest : List Char} {first others : List Nat} :
      element? quote inside = some (first, rest) → Denotes quote rest others →
        Denotes quote inside (first ++ others)

def StringDenotes (literal : String) (text : List Nat) : Prop :=
  ∃ inside, literal.toList = '"' :: inside ++ ['"'] ∧ Denotes '"' inside text

/-- A character literal that denotes a unit. -/
def CharDenotes (literal : String) (unit : Nat) : Prop :=
  ∃ inside, literal.toList = '\'' :: inside ++ ['\''] ∧ element? '\'' inside = some ([unit], [])

end Source.Literal

/-- Characters whose literal form is one of the source language: printable ASCII, and the
controls that have an escape of one letter. -/
def Text.IsCommon (c : Char) : Prop :=
  c = '\t' ∨ c = '\r' ∨ c = '\n' ∨ 0x20 ≤ c.toNat ∧ c.toNat ≤ 0x7e

instance (c : Char) : Decidable (Text.IsCommon c) :=
  inferInstanceAs (Decidable (c = '\t' ∨ c = '\r' ∨ c = '\n' ∨ 0x20 ≤ c.toNat ∧ c.toNat ≤ 0x7e))

namespace Source.Literal

open Text

variable {quote c : Char} {rest : List Char}

lemma units_of_common (h : IsCommon c) : units c.toNat = [c.toNat] := by
  have hlt : c.toNat < 0x10000 := by
    rcases h with rfl | rfl | rfl | ⟨-, hle⟩
    · decide
    · decide
    · decide
    · omega
  exact if_pos hlt

/-- An escape of one letter. -/
lemma element?_simple {value : Nat} (hletter : c ≠ 'x' ∧ c ≠ 'u' ∧ c ≠ 'U')
    (hvalue : simpleEscapes.lookup c = some value) :
    element? quote ('\\' :: c :: rest) = some ([value], rest) := by
  obtain ⟨hx, hu, hU⟩ := hletter
  rw [element?, if_pos rfl, escapeUnits, hvalue, Option.map_some]
  · exact hx
  · exact hu
  · exact hU

lemma endsLine_eq_false (hlow : 0x20 ≤ c.toNat) (hhigh : c.toNat ≤ 0x7e) : endsLine c = false := by
  simp only [endsLine, List.contains_eq_mem, List.mem_cons, List.not_mem_nil, or_false,
    decide_eq_false_iff_not]
  omega

/-- The literal form of a common character denotes the character. -/
lemma element?_of_common (hquote : quote = '"' ∨ quote = '\'') (h : IsCommon c) :
    element? quote (literalChar c ++ rest) = some (units c.toNat, rest) := by
  rw [units_of_common h]
  unfold literalChar
  split
  · subst c
    exact element?_simple (by decide) rfl
  split
  · subst c
    exact element?_simple (by decide) rfl
  split
  · subst c
    exact element?_simple (by decide) rfl
  split
  · rename_i hescaped
    rcases hescaped with rfl | rfl | rfl
    · exact element?_simple (by decide) rfl
    · exact element?_simple (by decide) rfl
    · exact element?_simple (by decide) rfl
  · rename_i ht hr hn hescaped
    obtain ⟨hlow, hhigh⟩ : 0x20 ≤ c.toNat ∧ c.toNat ≤ 0x7e := by
      rcases h with hc | hc | hc | hrange
      · exact absurd hc ht
      · exact absurd hc hr
      · exact absurd hc hn
      · exact hrange
    obtain ⟨hsingle, hdouble, hbackslash⟩ : c ≠ '\'' ∧ c ≠ '"' ∧ c ≠ '\\' := by
      simpa only [not_or] using hescaped
    have hplain : ¬(c = quote ∨ endsLine c = true) := by
      rw [endsLine_eq_false hlow hhigh]
      rcases hquote with rfl | rfl
      · simp [hdouble]
      · simp [hsingle]
    rw [if_pos ⟨hlow, hhigh⟩, List.singleton_append, element?, if_neg hbackslash, if_neg hplain,
      units_of_common h]

lemma literalChar_ne_nil (c : Char) : literalChar c ≠ [] := by
  grind [literalChar, codeEscape]

/-- The literal form of any other character opens an escape that has no end. -/
lemma element?_of_not_common (h : ¬IsCommon c) : element? quote (literalChar c ++ rest) = none := by
  unfold IsCommon at h
  simp only [not_or] at h
  obtain ⟨ht, hr, hn, hrange⟩ := h
  have hescaped : ¬(c = '\'' ∨ c = '"' ∨ c = '\\') := by
    rintro (rfl | rfl | rfl)
    · exact hrange (by decide)
    · exact hrange (by decide)
    · exact hrange (by decide)
  rw [literalChar, if_neg ht, if_neg hr, if_neg hn, if_neg hescaped, if_neg hrange, codeEscape]
  rfl

/-- An inside that begins with the form of a character denotes what is left behind the
character's own units. -/
lemma denotes_append_iff (hquote : quote = '"' ∨ quote = '\'') (c : Char) (rest : List Char)
    (text : List Nat) :
    Denotes quote (literalChar c ++ rest) text ↔
      IsCommon c ∧ ∃ others, text = units c.toNat ++ others ∧ Denotes quote rest others := by
  generalize hinside : literalChar c ++ rest = inside
  constructor
  · intro h
    cases h with
    | nil => exact absurd (List.append_eq_nil_iff.mp hinside).1 (literalChar_ne_nil c)
    | cons hfirst hothers =>
      by_cases hcommon : IsCommon c
      · have helement : element? quote (literalChar c ++ rest) = _ := element?_of_common hquote hcommon
        rw [hinside, hfirst] at helement
        cases helement
        exact ⟨hcommon, _, rfl, hothers⟩
      · have helement : element? quote (literalChar c ++ rest) = none := element?_of_not_common hcommon
        rw [hinside, hfirst] at helement
        cases helement
  · rintro ⟨hcommon, others, rfl, hothers⟩
    exact .cons (hinside ▸ element?_of_common hquote hcommon) hothers

/-- The inside of the literal that a text is rendered as. -/
lemma denotes_literal_iff (hquote : quote = '"' ∨ quote = '\'') (cs : List Char) (text : List Nat) :
    Denotes quote (cs.flatMap literalChar) text ↔
      text = cs.flatMap (fun c => units c.toNat) ∧ ∀ c ∈ cs, IsCommon c := by
  induction cs generalizing text with
  | nil =>
    constructor
    · intro h
      cases h with
      | nil => exact ⟨rfl, fun _ hmem => nomatch hmem⟩
      | cons helement _ => cases helement
    · rintro ⟨rfl, -⟩
      exact .nil
  | cons c cs ih =>
    rw [List.flatMap_cons, List.flatMap_cons, List.forall_mem_cons, denotes_append_iff hquote]
    constructor
    · rintro ⟨hcommon, others, rfl, hothers⟩
      obtain ⟨rfl, hall⟩ := (ih others).mp hothers
      exact ⟨rfl, hcommon, hall⟩
    · rintro ⟨rfl, hcommon, hall⟩
      exact ⟨hcommon, _, rfl, (ih _).mpr ⟨rfl, hall⟩⟩

/-- What stands between two quotes is one text. -/
lemma inside_unique {inside other : List Char}
    (h : quote :: inside ++ [quote] = quote :: other ++ [quote]) : inside = other :=
  List.append_cancel_right (List.cons.inj h).2

end Source.Literal

namespace Metadata.Argument

open Source.Literal Text

lemma toList_render_text (s : String) :
    (text (some s)).render.toList = '"' :: s.toList.flatMap literalChar ++ ['"'] := by
  simp [render, literalText]

lemma toList_render_char (c : Char) :
    (char c).render.toList = '\'' :: literalChar c ++ ['\''] := by
  simp [render]

lemma stringDenotes_render_iff (s : String) (units : List Nat) :
    StringDenotes (text (some s)).render units ↔
      units = unitsOf s ∧ ∀ c ∈ s.toList, IsCommon c := by
  rw [StringDenotes, toList_render_text]
  constructor
  · rintro ⟨inside, heq, hdenotes⟩
    rw [← inside_unique heq] at hdenotes
    exact (denotes_literal_iff (.inl rfl) _ _).mp hdenotes
  · intro h
    exact ⟨_, rfl, (denotes_literal_iff (.inl rfl) _ _).mpr h⟩

lemma charDenotes_render_iff (c : Char) (unit : Nat) :
    CharDenotes (char c).render unit ↔ unit = c.toNat ∧ IsCommon c := by
  rw [CharDenotes, toList_render_char]
  by_cases hcommon : IsCommon c
  · have helement : element? '\'' (literalChar c ++ []) = _ := element?_of_common (.inr rfl) hcommon
    rw [List.append_nil, units_of_common hcommon] at helement
    constructor
    · rintro ⟨inside, heq, hfirst⟩
      rw [← inside_unique heq, helement] at hfirst
      obtain ⟨hunit, -⟩ := Prod.mk.inj (Option.some.inj hfirst)
      exact ⟨(List.cons.inj hunit).1.symm, hcommon⟩
    · rintro ⟨rfl, -⟩
      exact ⟨_, rfl, helement⟩
  · have helement : element? '\'' (literalChar c ++ []) = none := element?_of_not_common hcommon
    rw [List.append_nil] at helement
    constructor
    · rintro ⟨inside, heq, hfirst⟩
      rw [← inside_unique heq, helement] at hfirst
      cases hfirst
    · rintro ⟨-, h⟩
      exact absurd h hcommon

/-- The text of an argument that is a string or a character is a literal that denotes the
value if and only if every character is a common one; no other value is denoted either way. -/
theorem render_denotes_iff (s : String) (c : Char) :
    (∀ units, StringDenotes (text (some s)).render units ↔ units = unitsOf s ∧ ∀ x ∈ s.toList, IsCommon x) ∧
      ∀ unit, CharDenotes (char c).render unit ↔ unit = c.toNat ∧ IsCommon c :=
  ⟨stringDenotes_render_iff s, charDenotes_render_iff c⟩

/-- An accented letter is rendered as no literal at all, in a string or as a character. -/
theorem render_accented_denotes_nothing :
    (∀ units, ¬StringDenotes (text (some "é")).render units) ∧
      (∀ unit, ¬CharDenotes (char 'é').render unit) ∧
      (text (some "é")).render = "\"\\u\x7be9\x7d\"" := by
  have haccented : ¬IsCommon 'é' := by decide
  refine ⟨fun units h => ?_, fun unit h => ?_, by decide⟩
  · exact haccented (((stringDenotes_render_iff _ _).mp h).2 'é' (by decide))
  · exact haccented ((charDenotes_render_iff _ _).mp h).2

end Metadata.Argument

end TypeAtlas
