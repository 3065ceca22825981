import TypeAtlas.Proofs.BuildCalls
import TypeAtlas.Proofs.SignatureRoundTrip

/-!
Runs of pushing. A blob goes behind all that a heap holds, with its length in front, so what a
heap holds is never moved or overwritten. Main statement: a blob that is not too long is found
at its offset whatever is pushed later, no two pushes of a blob that is not empty share an
offset, and a blob that is too long leaves no byte behind.
-/

namespace TypeAtlas.Metadata

lemma writeCompressed_eq_error {value : Nat} (h : compressedLimit < value) :
    writeCompressed value = .error (.tooLarge value) := by
  unfold compressedLimit at h
  unfold writeCompressed compressedLimit
  have hone : ¬value < 0x80 := by omega
  have htwo : ¬value < 0x4000 := by omega
  have hfour : ¬value ≤ 0x1fffffff := by omega
  rw [if_neg hone, if_neg htwo, if_neg hfour]

namespace BlobHeap

/-- The heap after a push, whether it succeeds or fails. -/
def pushed (heap : BlobHeap) (blob : Bytes) : BlobHeap :=
  match heap.push blob with
  | .ok (_, longer) => longer
  | .error _ => heap

def pushAll (heap : BlobHeap) (blobs : List Bytes) : BlobHeap := blobs.foldl pushed heap

variable {heap longer : BlobHeap} {blob : Bytes} {offset : Nat}

lemma push_nil (heap : BlobHeap) : heap.push [] = .ok (0, heap) := rfl

lemma push_of_written {length : Bytes} (hblob : blob ≠ [])
    (hlength : writeCompressed blob.length = .ok length) :
    heap.push blob = .ok (heap.bytes.length, ⟨heap.bytes ++ length ++ blob⟩) := by
  have hempty : ¬blob.isEmpty = true := by simpa using hblob
  rw [push, if_neg hempty, hlength]
  rfl

lemma push_of_too_long (h : compressedLimit < blob.length) :
    heap.push blob = .error (.tooLarge blob.length) := by
  have hempty : ¬blob.isEmpty = true := by
    intro hnil
    rw [List.isEmpty_iff] at hnil
    simp [hnil] at h
  rw [push, if_neg hempty, writeCompressed_eq_error h]
  rfl

/-- What a push does: nothing for the empty blob, an entry behind all others for a blob whose
length can be written, and a refusal for every other. -/
lemma push_cases (heap : BlobHeap) (blob : Bytes) :
    blob = [] ∧ heap.push blob = .ok (0, heap) ∨
      blob ≠ [] ∧ blob.length ≤ compressedLimit ∧
        (∃ length : Bytes, length ≠ [] ∧
          heap.push blob = .ok (heap.bytes.length, ⟨heap.bytes ++ length ++ blob⟩)) ∨
      compressedLimit < blob.length ∧ heap.push blob = .error (.tooLarge blob.length) := by
  by_cases hblob : blob = []
  · subst hblob
    exact .inl ⟨rfl, push_nil heap⟩
  · by_cases hshort : blob.length ≤ compressedLimit
    · obtain ⟨length, hlength⟩ := exists_writeCompressed.mpr hshort
      exact .inr (.inl ⟨hblob, hshort, length, writeCompressed_ne_nil hlength,
        push_of_written hblob hlength⟩)
    · have hlong : compressedLimit < blob.length := Nat.not_le.mp hshort
      exact .inr (.inr ⟨hlong, push_of_too_long hlong⟩)

lemma pushed_of_ok (h : heap.push blob = .ok (offset, longer)) : heap.pushed blob = longer := by
  simp [pushed, h]

lemma pushed_of_too_long (h : compressedLimit < blob.length) : heap.pushed blob = heap := by
  simp [pushed, push_of_too_long h]

/-- A push keeps every byte in its place. -/
lemma bytes_prefix_pushed (heap : BlobHeap) (blob : Bytes) :
    heap.bytes <+: (heap.pushed blob).bytes := by
  rcases push_cases heap blob with ⟨-, hpush⟩ | ⟨-, -, length, -, hpush⟩ | ⟨hlong, -⟩
  · simp [pushed_of_ok hpush]
  · simp [pushed_of_ok hpush]
  · simp [pushed_of_too_long hlong]

lemma bytes_prefix_pushAll (heap : BlobHeap) (blobs : List Bytes) :
    heap.bytes <+: (heap.pushAll blobs).bytes := by
  induction blobs generalizing heap with
  | nil => exact List.prefix_refl _
  | cons blob blobs ih => exact (bytes_prefix_pushed heap blob).trans (ih (heap.pushed blob))

/-- Every heap opens with the empty blob. -/
def Opened (heap : BlobHeap) : Prop := [0] <+: heap.bytes

lemma opened_pushAll (blobs : List Bytes) : (({} : BlobHeap).pushAll blobs).Opened :=
  bytes_prefix_pushAll {} blobs

lemma Opened.get_zero (h : heap.Opened) : heap.get 0 = .ok [] := by
  have hempty : ({} : BlobHeap).get 0 = .ok [] := rfl
  exact get_of_prefix h hempty

lemma Opened.get_push (h : heap.Opened) (hpush : heap.push blob = .ok (offset, longer)) :
    longer.get offset = .ok blob := by
  by_cases hblob : blob = []
  · subst hblob
    cases hpush
    exact h.get_zero
  · exact (push_spec hblob hpush).2

/-- The offset of a blob that is not empty is the end of the heap before it, and the heap
grows beyond it. -/
lemma offset_of_push (hblob : blob ≠ []) (hpush : heap.push blob = .ok (offset, longer)) :
    offset = heap.bytes.length ∧ offset < longer.bytes.length := by
  rcases push_cases heap blob with ⟨hnil, -⟩ | ⟨-, -, length, hlength, hdone⟩ | ⟨-, hfailed⟩
  · exact absurd hnil hblob
  · rw [hdone] at hpush
    cases hpush
    have hpos : 0 < length.length := List.length_pos_iff.mpr hlength
    refine ⟨rfl, ?_⟩
    simp only [List.length_append]
    omega
  · rw [hfailed] at hpush
    cases hpush

/-- Whatever was pushed before and after a blob: if its length can be written then the push
succeeds, its offset leads to exactly that blob ever after, and no later push of a blob that
is not empty gets the offset of one that is not empty. A longer blob is refused, and neither a
heap nor a module under construction shows that it was ever pushed. -/
theorem pushed_blob_keeps_offset (before after : List Bytes) (blob : Bytes) :
    let heap := ({} : BlobHeap).pushAll before
    (blob.length ≤ compressedLimit →
      ∃ offset longer, heap.push blob = .ok (offset, longer) ∧
        (longer.pushAll after).get offset = .ok blob ∧
        ∀ other place further, blob ≠ [] → other ≠ [] →
          (longer.pushAll after).push other = .ok (place, further) → place ≠ offset) ∧
      (compressedLimit < blob.length →
        heap.push blob = .error (.tooLarge blob.length) ∧
          heap.pushed blob = heap ∧
          ∀ b : Builder, b.module.blobs = heap →
            Builder.run (Builder.pushBlob blob) b = (.error (.tooLarge blob.length), b)) := by
  intro heap
  constructor
  · intro hshort
    obtain ⟨offset, longer, hpush⟩ : ∃ offset longer, heap.push blob = .ok (offset, longer) := by
      rcases push_cases heap blob with ⟨-, hpush⟩ | ⟨-, -, length, -, hpush⟩ | ⟨hlong, -⟩
      · exact ⟨_, _, hpush⟩
      · exact ⟨_, _, hpush⟩
      · omega
    have hgrows : longer.bytes <+: (longer.pushAll after).bytes := bytes_prefix_pushAll longer after
    refine ⟨offset, longer, hpush, ?_, ?_⟩
    · exact get_of_prefix hgrows ((opened_pushAll before).get_push hpush)
    · intro other place further hblob hother hagain
      have hfirst := (offset_of_push hblob hpush).2
      have hsecond := (offset_of_push hother hagain).1
      have hlength := hgrows.length_le
      omega
  · intro hlong
    have hrefused : heap.push blob = .error (.tooLarge blob.length) := push_of_too_long hlong
    refine ⟨hrefused, pushed_of_too_long hlong, ?_⟩
    intro b hblobs
    rw [Builder.run_pushBlob, hblobs, hrefused]

end BlobHeap

end TypeAtlas.Metadata
