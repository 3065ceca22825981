import TypeAtlas.Metadata.TypeName
import TypeAtlas.Proofs.Heaps
import TypeAtlas.Proofs.Plan

/-!
The names of a plan in both worlds. They hold no character that means something to a
module: no zero, no dot, no backtick. So the name of a type and the number of its parameters
are read back from the name that is stored for it.
-/

namespace TypeAtlas

variable {c : Char} {name : String} {arity : Nat}

lemma isPlainName_iff : isPlainName name = true ↔
    ∃ c cs, name.toList = c :: cs ∧ Text.isNameStart c = true ∧ (∀ x ∈ cs, Text.isNamePart x = true) ∧
      name ∉ keywords := by
  unfold isPlainName
  cases hname : name.toList with
  | nil => simp
  | cons c cs => simp [and_assoc]

lemma isNamePart_of_mem (h : isPlainName name = true) (hc : c ∈ name.toList) : Text.isNamePart c = true := by
  obtain ⟨first, rest, hname, hfirst, hrest, -⟩ := isPlainName_iff.mp h
  rw [hname] at hc
  rcases List.mem_cons.mp hc with rfl | hc
  · exact Text.isNamePart_of_isNameStart hfirst
  · exact hrest c hc

lemma notMem_of_isPlainName (h : isPlainName name = true) (hc : Text.isNamePart c = false) : c ∉ name.toList := by
  intro hmem
  rw [isNamePart_of_mem h hmem] at hc
  cases hc

lemma ne_of_isPlainName {word : String} (h : isPlainName name = true) (hword : word ∈ keywords) : name ≠ word := by
  obtain ⟨_, _, _, _, _, hnot⟩ := isPlainName_iff.mp h
  exact fun heq => hnot (heq ▸ hword)

lemma notMem_keywords (h : isPlainName name = true) {words : List String} (hwords : ∀ word ∈ words, word ∈ keywords) :
    name ∉ words :=
  fun hmem => ne_of_isPlainName h (hwords name hmem) rfl

/-- A word that can name a type: a plain name, or any word behind an at sign. -/
def isIdentifier (name : String) : Bool :=
  isPlainName name || match name.toList with
    | '@' :: c :: cs => Text.isNameStart c && cs.all Text.isNamePart
    | _ => false

lemma isIdentifier_of_isPlainName (h : isPlainName name = true) : isIdentifier name = true := by
  rw [isIdentifier, h, Bool.true_or]

lemma isIdentifier_cases (h : isIdentifier name = true) : isPlainName name = true ∨
    ∃ c cs, name.toList = '@' :: c :: cs ∧ Text.isNameStart c = true ∧ ∀ x ∈ cs, Text.isNamePart x = true := by
  rw [isIdentifier, Bool.or_eq_true] at h
  refine h.imp_right fun h => ?_
  split at h
  · rename_i c cs hname
    rw [Bool.and_eq_true, List.all_eq_true] at h
    exact ⟨c, cs, hname, h⟩
  · cases h

lemma mem_identifier (h : isIdentifier name = true) (hc : c ∈ name.toList) : c = '@' ∨ Text.isNamePart c = true := by
  rcases isIdentifier_cases h with hplain | ⟨first, rest, hname, hfirst, hrest⟩
  · exact .inr (isNamePart_of_mem hplain hc)
  · rw [hname] at hc
    rcases List.mem_cons.mp hc with rfl | hc
    · exact .inl rfl
    rcases List.mem_cons.mp hc with rfl | hc
    · exact .inr (Text.isNamePart_of_isNameStart hfirst)
    · exact .inr (hrest c hc)

lemma ne_of_isIdentifier {word : String} (h : isIdentifier name = true) (hword : word ∈ keywords) : name ≠ word := by
  rcases isIdentifier_cases h with hplain | ⟨c, cs, hname, -⟩
  · exact ne_of_isPlainName hplain hword
  · have hkeywords : ∀ word ∈ keywords, '@' ∉ word.toList := by decide +kernel
    rintro rfl
    exact hkeywords name hword (by rw [hname]; exact List.mem_cons_self)

lemma isPlainName_ne_empty (h : isPlainName name = true) : name ≠ "" := by
  rintro rfl
  cases h

namespace Text

/-- Characters of a joined text come from its parts or the gap. -/
lemma mem_joinWith {gap : String} {parts : List String} (h : c ∈ (joinWith gap parts).toList) :
    c ∈ gap.toList ∨ ∃ part ∈ parts, c ∈ part.toList := by
  induction parts with
  | nil => cases h
  | cons first rest ih =>
    cases rest with
    | nil => exact .inr ⟨first, List.mem_cons_self, h⟩
    | cons second rest =>
      rw [joinWith, String.toList_append, String.toList_append, List.mem_append, List.mem_append] at h
      · rcases h with (hfirst | hgap) | hrest
        · exact .inr ⟨first, List.mem_cons_self, hfirst⟩
        · exact .inl hgap
        · rcases ih hrest with hgap | ⟨part, hpart, hmem⟩
          · exact .inl hgap
          · exact .inr ⟨part, List.mem_cons_of_mem first hpart, hmem⟩
      · exact fun heq => by cases heq

/-- The digits of a number are read back. -/
lemma digitsValue_eq (cs : List Char) (value : Nat) (h : ∀ c ∈ cs, c.isDigit = true) :
    digitsValue value cs = some (Nat.ofDigitChars 10 cs value) := by
  induction cs generalizing value with
  | nil => rfl
  | cons c cs ih =>
    have hdigit : digitValue c = some (c.toNat - '0'.toNat) := by
      have hc := h c List.mem_cons_self
      simp only [Char.isDigit, Bool.and_eq_true, decide_eq_true_eq] at hc
      exact if_pos ⟨hc.1, hc.2⟩
    rw [digitsValue, hdigit, Option.bind_some, ih _ (List.forall_mem_cons.mp h).2]
    rfl

lemma readWord_toString {n : Nat} (h : n < 0x10000000000000000) : readWord (toString n).toList = some n := by
  have hdigits : ∀ c ∈ Nat.toDigits 10 n, c.isDigit = true := fun c hc =>
    Nat.isDigit_of_mem_toDigits (by omega) (by omega) hc
  have hvalue : digitsValue 0 (Nat.toDigits 10 n) = some n := by
    rw [digitsValue_eq _ _ hdigits, Nat.ofDigitChars_toDigits (by omega) (by omega)]
  have hnonempty : (Nat.toDigits 10 n).isEmpty = false := by
    rw [Nat.toDigits_eq_if (by omega)]
    split <;> simp
  rw [Nat.toString_eq_repr, Nat.toList_repr]
  unfold readWord
  split
  · rename_i cs hcs
    have hplus := hdigits '+' (hcs ▸ List.mem_cons_self)
    cases hplus
  · rw [wordOfDigits, hnonempty, hvalue]
    simp [h]

/-- The last separator divides a text behind which no further one stands. -/
lemma splitLast_append {before after : List Char} (h : c ∉ after) :
    splitLast c (before ++ c :: after) = some (before, after) := by
  induction before with
  | nil =>
    rw [List.nil_append, splitLast, splitLast_eq_none.mpr h]
    exact if_pos rfl
  | cons x before ih => rw [List.cons_append, splitLast, ih]

end Text

namespace Metadata

/-- The stored name of a type gives back its name and the number of its parameters. -/
lemma splitArity_markArity (hname : '`' ∉ name.toList) (harity : arity < 0x10000000000000000) :
    splitArity (markArity name arity) = (name, arity) := by
  unfold markArity
  split
  · rename_i hzero
    rw [splitArity, Text.splitLast_eq_none.mpr hname, hzero]
  · have hdigits : '`' ∉ (toString arity).toList := by
      rw [Nat.toString_eq_repr, Nat.toList_repr]
      intro hmem
      have hdigit := Nat.isDigit_of_mem_toDigits (by omega) (by omega) hmem
      cases hdigit
    have hsplit : Text.splitLast '`' (name ++ "`" ++ toString arity).toList =
        some (name.toList, (toString arity).toList) := by
      rw [String.toList_append, String.toList_append, List.append_assoc]
      exact Text.splitLast_append hdigits
    rw [splitArity, hsplit]
    dsimp only
    rw [Text.readWord_toString harity]
    dsimp only
    rw [String.ofList_toList]

lemma zero_notMem_markArity (hname : '\x00' ∉ name.toList) :
    '\x00' ∉ (markArity name arity).toList := by
  unfold markArity
  split
  · exact hname
  · intro hmem
    rw [String.toList_append, String.toList_append, List.mem_append, List.mem_append] at hmem
    rcases hmem with (hmem | hmem) | hmem
    · exact hname hmem
    · cases hmem with
      | tail _ hmem => cases hmem
    · rw [Nat.toString_eq_repr, Nat.toList_repr] at hmem
      have hdigit := Nat.isDigit_of_mem_toDigits (by omega) (by omega) hmem
      cases hdigit

end Metadata

namespace PlanDecl

variable {arities : List Nat} {d : PlanDecl}

lemma Fits.arity_lt (h : d.Fits arities) : d.arity < 0x10000000000000000 :=
  Nat.lt_of_le_of_lt h.generics.1 (by decide)

lemma Fits.storedName (h : d.Fits arities) :
    Text.untilZero (Metadata.markArity d.name d.arity) = Metadata.markArity d.name d.arity :=
  Text.untilZero_eq_self (Metadata.zero_notMem_markArity (notMem_of_isPlainName h.name (by decide)))

lemma Fits.splitArity (h : d.Fits arities) :
    Metadata.splitArity (Metadata.markArity d.name d.arity) = (d.name, d.arity) :=
  Metadata.splitArity_markArity (notMem_of_isPlainName h.name (by decide)) h.arity_lt

/-- A namespace is made of name characters and dots. -/
lemma Fits.mem_ns (h : d.Fits arities) (hc : c ∈ d.ns.toList) : c = '.' ∨ Text.isNamePart c = true := by
  rcases Text.mem_joinWith hc with hgap | ⟨part, hpart, hmem⟩
  · exact .inl (List.mem_singleton.mp hgap)
  · exact .inr (isNamePart_of_mem (h.spaces.2.2 part hpart) hmem)

lemma Fits.storedNs (h : d.Fits arities) : Text.untilZero d.ns = d.ns := by
  refine Text.untilZero_eq_self fun hmem => ?_
  rcases h.mem_ns hmem with heq | hpart
  · cases heq
  · cases hpart

lemma ns_ne_system (hne : d.spaces ≠ []) (hsystem : d.spaces ≠ ["System"]) : d.ns ≠ "System" := by
  unfold ns
  cases hspaces : d.spaces with
  | nil => exact absurd hspaces hne
  | cons first rest =>
    cases rest with
    | nil =>
      intro heq
      rw [Text.joinWith] at heq
      exact hsystem (by rw [hspaces, heq])
    | cons second rest =>
      -- A namespace of several parts holds a dot.
      intro heq
      have hdot : '.' ∈ (Text.joinWith "." (first :: second :: rest)).toList := by
        rw [Text.joinWith, String.toList_append, String.toList_append]
        · simp
        · exact fun heq => by cases heq
      rw [heq] at hdot
      revert hdot
      decide

/-- No declaration of a plan lives in the namespace of the builtin types. -/
lemma Fits.ns_ne_system (h : d.Fits arities) : d.ns ≠ "System" :=
  PlanDecl.ns_ne_system h.spaces.1 h.spaces.2.1

end PlanDecl

end TypeAtlas
