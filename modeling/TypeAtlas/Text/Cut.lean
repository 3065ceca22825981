/-!
Cutting text at a character and looking for one text in another. Everything is
first defined on lists of characters, where it recurses on the text itself.
-/

namespace TypeAtlas.Text

def splitFirst (c : Char) : List Char → Option (List Char × List Char)
  | [] => none
  | x :: xs => if x = c then some ([], xs) else (splitFirst c xs).map fun p => (x :: p.1, p.2)

def splitLast (c : Char) : List Char → Option (List Char × List Char)
  | [] => none
  | x :: xs =>
    match splitLast c xs with
    | some p => some (x :: p.1, p.2)
    | none => if x = c then some ([], xs) else none

theorem splitFirst_eq_some {c : Char} {cs before after : List Char}
    (h : splitFirst c cs = some (before, after)) : cs = before ++ c :: after ∧ c ∉ before := by
  induction cs generalizing before with
  | nil => simp [splitFirst] at h
  | cons x xs ih =>
    by_cases hx : x = c
    · simp [splitFirst, hx] at h
      simp [h.1, h.2, hx]
    · simp only [splitFirst, hx, if_false, Option.map_eq_some_iff, Prod.mk.injEq] at h
      obtain ⟨p, hp, rfl, rfl⟩ := h
      obtain ⟨rfl, hmem⟩ := ih hp
      exact ⟨rfl, by simp [Ne.symm hx, hmem]⟩

theorem splitLast_eq_none {c : Char} {cs : List Char} : splitLast c cs = none ↔ c ∉ cs := by
  induction cs with
  | nil => simp [splitLast]
  | cons x xs ih =>
    cases h : splitLast c xs with
    | some p => simp [splitLast, h]; exact fun _ => by simpa [h] using ih
    | none =>
      have := ih.mp h
      by_cases hx : x = c
      · simp [splitLast, h, hx]
      · simp [splitLast, h, hx, this, Ne.symm hx]

theorem splitLast_eq_some {c : Char} {cs before after : List Char}
    (h : splitLast c cs = some (before, after)) : cs = before ++ c :: after ∧ c ∉ after := by
  induction cs generalizing before with
  | nil => simp [splitLast] at h
  | cons x xs ih =>
    cases hs : splitLast c xs with
    | some p =>
      simp [splitLast, hs] at h
      obtain ⟨rfl, rfl⟩ := h
      obtain ⟨h, hmem⟩ := ih hs
      exact ⟨by simp [h], hmem⟩
    | none =>
      by_cases hx : x = c
      · simp [splitLast, hs, hx] at h
        obtain ⟨rfl, rfl⟩ := h
        exact ⟨by simp [hx], splitLast_eq_none.mp hs⟩
      · simp [splitLast, hs, hx] at h

def cutFirst (c : Char) (s : String) : Option (String × String) :=
  (splitFirst c s.toList).map fun p => (String.ofList p.1, String.ofList p.2)

def cutLast (c : Char) (s : String) : Option (String × String) :=
  (splitLast c s.toList).map fun p => (String.ofList p.1, String.ofList p.2)

/-- Whether `needle` stands somewhere in the text. -/
def occursIn (needle : List Char) : List Char → Bool
  | [] => needle.isEmpty
  | c :: cs => needle.isPrefixOf (c :: cs) || occursIn needle cs

theorem occursIn_iff {needle cs : List Char} : occursIn needle cs = true ↔ needle <:+: cs := by
  induction cs with
  | nil => simp [occursIn]
  | cons c cs ih =>
    simp only [occursIn, Bool.or_eq_true, List.isPrefixOf_iff_prefix, ih, List.infix_cons_iff]

def holds (s needle : String) : Bool := occursIn needle.toList s.toList

/-- Texts one after another with `gap` between neighbours. -/
def joinWith (gap : String) : List String → String
  | [] => ""
  | [s] => s
  | s :: rest => s ++ gap ++ joinWith gap rest

/-- A run of one character. -/
def repeated (c : Char) (n : Nat) : String := String.ofList (List.replicate n c)

end TypeAtlas.Text
