import TypeAtlas.Metadata.Heap
import TypeAtlas.Proofs.Compressed

/-!
The heaps of a module only grow. Main statements: what was stored in a heap is found at the
offset it was given, and stays there whatever is stored later.
-/

namespace TypeAtlas

namespace Text

/-- The part of a text before its first zero character. -/
def untilZero (text : String) : String := String.ofList (text.toList.takeWhile (· != '\x00'))

lemma untilZero_eq_self {text : String} (h : '\x00' ∉ text.toList) : untilZero text = text := by
  have hkeep : text.toList.takeWhile (· != '\x00') = text.toList ++ [].takeWhile (· != '\x00') := by
    rw [← List.takeWhile_append_of_pos, List.append_nil]
    intro c hc
    simp only [bne_iff_ne]
    exact fun heq => h (heq ▸ hc)
  rw [untilZero, hkeep, List.takeWhile_nil, List.append_nil, String.ofList_toList]

namespace Utf8

lemma ne_zero_of_mem_utf8EncodeChar {c : Char} (h : c ≠ '\x00') :
    ∀ byte ∈ String.utf8EncodeChar c, (byte != 0) = true := by
  have hbyte : ∀ n : Nat, n % 256 ≠ 0 → (UInt8.ofNat n != 0) = true := by
    intro n hn
    rw [bne_iff_ne, ne_eq, ← UInt8.toNat_inj, UInt8.toNat_ofNat']
    exact hn
  have hcode : c.val.toNat ≠ 0 := fun heq => h (Char.ext (UInt32.toNat_inj.mp heq))
  intro byte hmem
  unfold String.utf8EncodeChar at hmem
  dsimp only at hmem
  split at hmem
  · simp only [List.mem_singleton] at hmem
    subst hmem
    exact hbyte _ (by omega)
  · split at hmem
    · simp only [List.mem_cons, List.not_mem_nil, or_false] at hmem
      rcases hmem with rfl | rfl <;> exact hbyte _ (by omega)
    · split at hmem
      · simp only [List.mem_cons, List.not_mem_nil, or_false] at hmem
        rcases hmem with rfl | rfl | rfl <;> exact hbyte _ (by omega)
      · simp only [List.mem_cons, List.not_mem_nil, or_false] at hmem
        rcases hmem with rfl | rfl | rfl | rfl <;> exact hbyte _ (by omega)

/-- A zero byte stands for a zero character and for nothing else. -/
lemma takeWhile_encode (cs : List Char) :
    (cs.flatMap String.utf8EncodeChar ++ [0]).takeWhile (· != 0) =
      (cs.takeWhile (· != '\x00')).flatMap String.utf8EncodeChar := by
  induction cs with
  | nil => rfl
  | cons c cs ih =>
    by_cases hc : c = '\x00'
    · subst hc
      rfl
    · have hkeep : (c != '\x00') = true := by simpa using hc
      rw [List.flatMap_cons, List.append_assoc,
        List.takeWhile_append_of_pos (ne_zero_of_mem_utf8EncodeChar hc), ih, List.takeWhile_cons, hkeep]
      rfl

end Utf8

end Text

namespace Metadata

variable {offset : Nat} {blob : Bytes}

/-- An offset inside of bytes is inside of more bytes, with more behind what was behind it. -/
lemma drop_of_prefix {bytes longer : Bytes} (hgrows : bytes <+: longer) (hinside : ¬bytes.length < offset) :
    ∃ more, ¬longer.length < offset ∧ longer.drop offset = bytes.drop offset ++ more := by
  obtain ⟨more, rfl⟩ := hgrows
  rw [List.length_append]
  exact ⟨more, by omega, List.drop_append_of_le_length (Nat.not_lt.mp hinside)⟩

lemma takeWhile_append_of_contains {bytes : Bytes} (more : Bytes) (h : bytes.contains 0 = true) :
    (bytes ++ more).takeWhile (· != 0) = bytes.takeWhile (· != 0) := by
  induction bytes with
  | nil => simp at h
  | cons byte bytes ih =>
    by_cases hbyte : byte = 0
    · subst hbyte
      rfl
    · have hrest : bytes.contains 0 = true := by
        simpa [Ne.symm hbyte] using h
      rw [List.cons_append, List.takeWhile_cons, List.takeWhile_cons, ih hrest]

namespace StringHeap

variable {heap : StringHeap}

/-- A heap in which every text is found at the offset it was given. -/
structure Sound (heap : StringHeap) : Prop where
  opening : ∃ rest, heap.bytes = 0 :: rest
  found : ∀ entry ∈ heap.offsets, heap.get entry.2 = .ok (Text.untilZero entry.1)

lemma Sound.initial : Sound {} := ⟨⟨[], rfl⟩, fun _ hmem => by cases hmem⟩

/-- What is found in a heap is found in every longer one. -/
lemma get_of_prefix {longer : StringHeap} {text : String} (hgrows : heap.bytes <+: longer.bytes)
    (h : heap.get offset = .ok text) : longer.get offset = .ok text := by
  unfold get at h
  split at h
  · cases h
  · rename_i hinside
    obtain ⟨more, hinside', hdrop⟩ := drop_of_prefix hgrows hinside
    dsimp only at h
    split at h
    · rename_i hzero
      have hzero' : (heap.bytes.drop offset ++ more).contains 0 = true := by
        rw [List.contains_iff_mem] at hzero ⊢
        exact List.mem_append_left more hzero
      unfold get
      rw [if_neg hinside', hdrop]
      dsimp only
      rw [if_pos hzero', takeWhile_append_of_contains more hzero]
      exact h
    · cases h

lemma bytes_prefix_intern (heap : StringHeap) (text : String) :
    heap.bytes <+: (heap.intern text).2.bytes := by
  unfold intern
  split
  · exact List.prefix_refl _
  · split
    · exact List.prefix_refl _
    · rw [List.append_assoc]
      exact List.prefix_append _ _

/-- A text that is new to a heap is found behind everything before it. -/
lemma get_append (before : Bytes) (offsets : List (String × Nat)) (text : String) :
    get ⟨before ++ Text.Utf8.encode text ++ [0], offsets⟩ before.length = .ok (Text.untilZero text) := by
  have hdrop : (before ++ Text.Utf8.encode text ++ [0]).drop before.length =
      Text.Utf8.encode text ++ [0] := by
    rw [List.append_assoc, List.drop_left]
  have hinside : ¬(before ++ Text.Utf8.encode text ++ [0]).length < before.length := by
    simp only [List.length_append]
    omega
  have htext : (Text.Utf8.encode text ++ [0]).takeWhile (· != 0) =
      Text.Utf8.encode (Text.untilZero text) := by
    rw [Text.Utf8.encode, Text.Utf8.takeWhile_encode, Text.Utf8.encode, Text.untilZero,
      String.toList_ofList]
  unfold get
  rw [if_neg hinside, hdrop]
  dsimp only
  rw [if_pos (by simp), htext, Text.Utf8.decode?_encode]

/-- Interning gives an offset at which the text is found, up to its first zero character. -/
lemma get_intern (h : heap.Sound) (text : String) :
    (heap.intern text).2.get (heap.intern text).1 = .ok (Text.untilZero text) := by
  unfold intern
  split
  · rename_i hempty
    obtain rfl := String.isEmpty_iff.mp hempty
    obtain ⟨rest, hopening⟩ := h.opening
    unfold get
    rw [hopening]
    rfl
  · split
    · rename_i offset hlookup
      obtain ⟨before, after, hentries, -⟩ := List.lookup_eq_some_iff.mp hlookup
      exact h.found (text, offset) (by simp [hentries])
    · exact get_append heap.bytes _ text

lemma Sound.intern (h : heap.Sound) (text : String) : (heap.intern text).2.Sound := by
  have hgrows := heap.bytes_prefix_intern text
  have hnew := get_intern h text
  refine ⟨?_, fun entry hmem => ?_⟩
  · obtain ⟨rest, hopening⟩ := h.opening
    obtain ⟨more, hmore⟩ := hgrows
    exact ⟨rest ++ more, by rw [← hmore, hopening, List.cons_append]⟩
  · have hcases : entry ∈ heap.offsets ∨ entry = (text, (heap.intern text).1) := by
      unfold StringHeap.intern at hmem ⊢
      split at hmem
      · exact .inl hmem
      · split at hmem
        · exact .inl hmem
        · rename_i hempty _ hlookup
          simpa [hempty, hlookup] using hmem
    rcases hcases with hold | rfl
    · exact get_of_prefix hgrows (h.found entry hold)
    · exact hnew

end StringHeap

namespace BlobHeap

/-- What is found in a heap is found in every longer one. -/
lemma get_of_prefix {heap longer : BlobHeap} (hgrows : heap.bytes <+: longer.bytes)
    (h : heap.get offset = .ok blob) : longer.get offset = .ok blob := by
  unfold get at h
  split at h
  · cases h
  · rename_i hinside
    obtain ⟨more, hinside', hdrop⟩ := drop_of_prefix hgrows hinside
    split at h
    · cases h
    · rename_i length tail hread
      split at h
      · cases h
      · rename_i hlength
        have hlength' : ¬(tail ++ more).length < length := by
          rw [List.length_append]
          omega
        unfold get
        rw [if_neg hinside', hdrop, readCompressed_local _ _ _ hread more]
        dsimp only
        rw [if_neg hlength', List.take_append_of_le_length (Nat.not_lt.mp hlength)]
        exact h

lemma push_spec {heap longer : BlobHeap} (hblob : blob ≠ [])
    (h : heap.push blob = .ok (offset, longer)) : heap.bytes <+: longer.bytes ∧ longer.get offset = .ok blob := by
  unfold push at h
  rw [if_neg (by simpa using hblob)] at h
  obtain ⟨length, hlength, h⟩ := bind_eq_ok h
  cases h
  refine ⟨⟨length ++ blob, by rw [List.append_assoc]⟩, ?_⟩
  have hread := Takes.compressed hlength blob
  unfold get
  rw [List.append_assoc, List.drop_left, if_neg (by simp only [List.length_append]; omega), hread]
  simp

end BlobHeap

end Metadata

end TypeAtlas
