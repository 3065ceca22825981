import Mathlib.Data.List.Nodup
import TypeAtlas.Proofs.Heaps

/-!
Runs of interning. A heap gives every text that was interned one offset of its own, and keeps
it. Main statement: whatever is interned later, the offset of a text leads back to the text,
is given for the text again and for no other, and every place of the heap has a zero byte
behind it.
-/

namespace TypeAtlas.Metadata.StringHeap

def internAll (heap : StringHeap) (texts : List String) : StringHeap :=
  texts.foldl (fun heap text => (heap.intern text).2) heap

def offset? (heap : StringHeap) (text : String) : Option Nat :=
  if text.isEmpty then some 0 else heap.offsets.lookup text

variable {heap : StringHeap} {text other : String} {offset : Nat}

/-- Interning looks the offset of a text up, or stores the text behind all others. -/
lemma intern_eq (heap : StringHeap) (text : String) : heap.intern text =
    match heap.offset? text with
    | some offset => (offset, heap)
    | none => (heap.bytes.length, ⟨heap.bytes ++ Text.Utf8.encode text ++ [0],
        heap.offsets ++ [(text, heap.bytes.length)]⟩) := by
  unfold intern offset?
  split
  · rfl
  · rfl

lemma intern_of_some (h : heap.offset? text = some offset) : heap.intern text = (offset, heap) := by
  rw [intern_eq, h]

/-- A text has the offset it was given; the other texts keep theirs. -/
lemma offset?_intern (heap : StringHeap) (text other : String) :
    (heap.intern text).2.offset? other =
      if other = text then some (heap.intern text).1 else heap.offset? other := by
  rw [intern_eq]
  cases hfound : heap.offset? text with
  | some offset =>
    dsimp only
    split
    · rename_i heq
      rw [heq, hfound]
    · rfl
  | none =>
    obtain ⟨hempty, hnew⟩ : text.isEmpty = false ∧ heap.offsets.lookup text = none := by
      unfold offset? at hfound
      split at hfound
      · cases hfound
      · rename_i hne
        exact ⟨by simpa using hne, hfound⟩
    dsimp only [offset?]
    by_cases heq : other = text
    · subst heq
      simp [hempty, List.lookup_append, hnew]
    · have hbeq : (other == text) = false := by simpa using heq
      simp [heq, List.lookup_append, List.lookup_cons, hbeq]

lemma offset?_internAll (h : heap.offset? text = some offset) (texts : List String) :
    (heap.internAll texts).offset? text = some offset := by
  induction texts generalizing heap with
  | nil => exact h
  | cons first texts ih =>
    apply ih
    rw [offset?_intern]
    split
    · rename_i heq
      subst heq
      rw [intern_of_some h]
    · exact h

/-- A heap in which no two texts share an offset and the last byte is zero. -/
structure Orderly (heap : StringHeap) : Prop where
  sound : heap.Sound
  closing : heap.bytes.getLast? = some 0
  inside : ∀ entry ∈ heap.offsets, 0 < entry.2 ∧ entry.2 < heap.bytes.length
  apart : (heap.offsets.map (·.2)).Nodup

lemma Orderly.initial : Orderly {} where
  sound := .initial
  closing := rfl
  inside := by simp
  apart := by simp

lemma Orderly.intern (h : heap.Orderly) (text : String) : (heap.intern text).2.Orderly := by
  have hsound := h.sound.intern text
  rw [intern_eq] at hsound ⊢
  cases hfound : heap.offset? text with
  | some offset => exact h
  | none =>
    rw [hfound] at hsound
    obtain ⟨rest, hopening⟩ := h.sound.opening
    have hpos : 0 < heap.bytes.length := by simp [hopening]
    refine ⟨hsound, by simp, ?_, ?_⟩
    · intro entry hmem
      simp only [List.length_append, List.length_singleton]
      rcases List.mem_append.mp hmem with hold | hnew
      · have hinside := h.inside entry hold
        omega
      · rw [List.mem_singleton.mp hnew]
        dsimp only
        omega
    · rw [List.map_append, List.nodup_append]
      refine ⟨h.apart, by simp, ?_⟩
      intro place hplace last hlast
      obtain ⟨entry, hmem, rfl⟩ := List.mem_map.mp hplace
      have hinside := h.inside entry hmem
      simp only [List.map_cons, List.map_nil, List.mem_singleton] at hlast
      omega

lemma Orderly.internAll (h : heap.Orderly) (texts : List String) : (heap.internAll texts).Orderly := by
  induction texts generalizing heap with
  | nil => exact h
  | cons first texts ih => exact ih (h.intern first)

lemma mem_of_lookup (h : heap.offsets.lookup text = some offset) : (text, offset) ∈ heap.offsets := by
  obtain ⟨before, after, hentries, -⟩ := List.lookup_eq_some_iff.mp h
  simp [hentries]

/-- The offset of a text leads to the text, up to its first zero character. -/
lemma Orderly.get_offset? (h : heap.Orderly) (hoffset : heap.offset? text = some offset) :
    heap.get offset = .ok (Text.untilZero text) := by
  have hget := get_intern h.sound text
  rwa [intern_of_some hoffset] at hget

lemma Orderly.offset?_injective (h : heap.Orderly) (htext : heap.offset? text = some offset)
    (hother : heap.offset? other = some offset) : text = other := by
  unfold offset? at htext hother
  split at htext <;> split at hother
  · rename_i hempty hempty'
    rw [String.isEmpty_iff.mp hempty, String.isEmpty_iff.mp hempty']
  · have hinside := h.inside _ (mem_of_lookup hother)
    simp only [Option.some.injEq] at htext
    omega
  · have hinside := h.inside _ (mem_of_lookup htext)
    simp only [Option.some.injEq] at hother
    omega
  · have hsame := List.inj_on_of_nodup_map h.apart (mem_of_lookup htext) (mem_of_lookup hother) rfl
    exact congrArg Prod.fst hsame

/-- Behind every place of an orderly heap there is a zero byte. -/
lemma Orderly.get_ne_unterminated (h : heap.Orderly) {place : Nat} (hplace : place < heap.size)
    (said : Nat) : heap.get place ≠ .error (.stringUnterminated said) := by
  have hzero : (heap.bytes.drop place).contains 0 = true := by
    have hlast : (heap.bytes.drop place).getLast? = some 0 := by
      have hinside : ¬heap.bytes.length ≤ place := Nat.not_le.mpr hplace
      rw [List.getLast?_drop, if_neg hinside]
      exact h.closing
    rw [List.contains_iff_mem]
    exact List.mem_of_getLast? hlast
  intro hget
  unfold get at hget
  split at hget
  · cases hget
  · dsimp only at hget
    rw [if_pos hzero] at hget
    split at hget <;> cases hget

/-- Whatever was interned before and after a text: its offset leads to the part of it before
the first zero character, the text is found again at that offset without any change, every
other text has another offset, and the heap ends with a zero byte, so that no place of it is
without an end. -/
theorem interned_text_keeps_offset (before after : List String) (text : String) :
    let (offset, heap) := (({} : StringHeap).internAll before).intern text
    let later := heap.internAll after
    later.get offset = .ok (Text.untilZero text) ∧
      later.intern text = (offset, later) ∧
      (∀ other, other ≠ text → (later.intern other).1 ≠ offset) ∧
      later.bytes.getLast? = some 0 ∧
      ∀ place < later.size, ∀ said, later.get place ≠ .error (.stringUnterminated said) := by
  have hbefore : (({} : StringHeap).internAll before).Orderly := Orderly.initial.internAll before
  cases hrun : (({} : StringHeap).internAll before).intern text with
  | mk offset heap =>
    dsimp only
    have horderly : heap.Orderly := by
      have hintern := hbefore.intern text
      rwa [hrun] at hintern
    have hoffset : heap.offset? text = some offset := by
      have hgiven := offset?_intern (({} : StringHeap).internAll before) text text
      simpa [hrun] using hgiven
    have hlater : (heap.internAll after).Orderly := horderly.internAll after
    have hkept : (heap.internAll after).offset? text = some offset := offset?_internAll hoffset after
    refine ⟨hlater.get_offset? hkept, intern_of_some hkept, ?_, hlater.closing, ?_⟩
    · intro other hne hshared
      have hgiven := offset?_intern (heap.internAll after) other
      have hother := hgiven other
      have htext := hgiven text
      rw [if_pos rfl, hshared] at hother
      rw [if_neg hne.symm, hkept] at htext
      exact hne ((hlater.intern other).offset?_injective hother htext)
    · exact fun place hplace said => hlater.get_ne_unterminated hplace said

end TypeAtlas.Metadata.StringHeap
