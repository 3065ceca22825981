import TypeAtlas.Proofs.Condensing
import TypeAtlas.Proofs.Pushing

/-!
Numbers in the fewest bytes. A reader accepts a small number in one byte, in two and in four; a
writer has to choose the first form that is wide enough, and to refuse a number for which none is.
Main statement: `compressed_form_canonical`.
-/

namespace TypeAtlas.Metadata

variable {value : Nat} {form : Bytes}

lemma putCompressed_of_ok (h : writeCompressed value = .ok form) (out : Bytes) :
    (putCompressed value).run.run out = (.ok (), out ++ form) := by
  rw [putCompressed, h]
  rfl

lemma putCompressed_of_error {cause : Malformed} (h : writeCompressed value = .error cause) (out : Bytes) :
    (putCompressed value).run.run out = (.error cause, out) := by
  rw [putCompressed, h]
  rfl

/-- Exactly the numbers below `2^29` have a compressed form, and any other leaves no byte behind.
The form is read back whatever follows it, and whatever bytes a number is read from, its form
takes no more of them. -/
theorem compressed_form_canonical (value : Nat) (out : Bytes) :
    (((putCompressed value).run.run out).1.isOk = true ↔ value ≤ 0x1fffffff) ∧
    (0x1fffffff < value → (putCompressed value).run.run out = (.error (.tooLarge value), out)) ∧
    (value ≤ 0x1fffffff → ∃ form, (putCompressed value).run.run out = (.ok (), out ++ form) ∧
      ∀ rest, readCompressed.run (form ++ rest) = .ok (value, rest)) ∧
    ∀ bytes rest, readCompressed.run bytes = .ok (value, rest) →
      ∃ taken form, bytes = taken ++ rest ∧ (putCompressed value).run.run out = (.ok (), out ++ form) ∧
        form.length ≤ taken.length := by
  have hsmall : value ≤ 0x1fffffff → ∃ form, writeCompressed value = .ok form := exists_writeCompressed.mpr
  have hlarge : 0x1fffffff < value → (putCompressed value).run.run out = (.error (.tooLarge value), out) :=
    fun hlt => putCompressed_of_error (writeCompressed_eq_error hlt) out
  refine ⟨⟨fun hok => ?_, fun hle => ?_⟩, hlarge, fun hle => ?_, fun bytes rest hread => ?_⟩
  · refine Nat.not_lt.mp fun hlt => ?_
    rw [hlarge hlt] at hok
    cases hok
  · obtain ⟨form, hform⟩ := hsmall hle
    rw [putCompressed_of_ok hform]
    rfl
  · obtain ⟨form, hform⟩ := hsmall hle
    exact ⟨form, putCompressed_of_ok hform out, Takes.compressed hform⟩
  · obtain ⟨taken, form, hbytes, hform, hle⟩ := readCompressed_condenses bytes rest value hread
    exact ⟨taken, form, hbytes, putCompressed_of_ok hform out, hle⟩

/-- Three is read from four bytes and written in one; the first number that is too large is not
written. -/
theorem compressed_form_canonical_overlong :
    readCompressed.run [0xc0, 0, 0, 3, 7] = .ok (3, [7]) ∧
    (∃ taken form, ([0xc0, 0, 0, 3, 7] : Bytes) = taken ++ [7] ∧
      (putCompressed 3).run.run [9] = (.ok (), [9] ++ form) ∧ form.length ≤ taken.length) ∧
    (putCompressed 0x20000000).run.run [9] = (.error (.tooLarge 0x20000000), [9]) := by
  have hread : readCompressed.run [0xc0, 0, 0, 3, 7] = .ok (3, [7]) := rfl
  obtain ⟨-, -, -, hshortest⟩ := compressed_form_canonical 3 [9]
  obtain ⟨-, hrefused, -⟩ := compressed_form_canonical 0x20000000 [9]
  exact ⟨hread, hshortest _ _ hread, hrefused (by decide)⟩

end TypeAtlas.Metadata
