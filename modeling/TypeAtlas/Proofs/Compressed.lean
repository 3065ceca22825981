import Mathlib.Tactic.Lemma
import TypeAtlas.Metadata.Compressed

/-!
Reading from the front of bytes. Main statement: a compressed number that was written is
read back, whatever follows it.
-/

namespace TypeAtlas

variable {α β : Type} {y : β}

lemma bind_eq_ok {ε : Type} {first : Except ε α} {f : α → Except ε β} (h : first >>= f = .ok y) :
    ∃ x, first = .ok x ∧ f x = .ok y := by
  cases first with
  | ok x => exact ⟨x, rfl, h⟩
  | error cause => cases h

lemma exists_of_isOk {α ε : Type} {result : Except ε α} (h : result.isOk = true) : ∃ x, result = .ok x := by
  cases result with
  | ok x => exact ⟨x, rfl⟩
  | error cause => cases h

namespace Metadata

variable {bytes rest : Bytes} {value : Nat} {step : Read α}

/-- The step reads these bytes, gives this value and leaves whatever follows. -/
def Takes (step : Read α) (bytes : Bytes) (value : α) : Prop :=
  ∀ rest, step.run (bytes ++ rest) = .ok (value, rest)

namespace Takes

variable {x : α}

lemma pure (value : α) : Takes (Pure.pure value : Read α) [] value := fun _ => rfl

lemma bind {f : α → Read β} {first second : Bytes} (hstep : Takes step first x) (hnext : Takes (f x) second y) :
    Takes (step >>= f) (first ++ second) y := by
  intro rest
  rw [StateT.run_bind, List.append_assoc, hstep]
  exact hnext rest

lemma byte (code : UInt8) : Takes readByte [code] code := fun _ => rfl

/-- Behind its first byte a step goes on with the rest. -/
lemma afterByte {f : UInt8 → Read β} {code : UInt8} (hnext : Takes (f code) bytes y) :
    Takes (readByte >>= f) (code :: bytes) y :=
  (byte code).bind hnext

lemma map (hstep : Takes step bytes x) (wrap : α → β) :
    Takes (do let value ← step; Pure.pure (wrap value)) bytes (wrap x) := by
  have hwrapped := hstep.bind (f := fun value => Pure.pure (wrap value)) (pure (wrap x))
  rwa [List.append_nil] at hwrapped

lemma ofBlob (hstep : Takes step bytes x) (rest : Bytes) : (step.run (bytes ++ rest)).map (·.1) = .ok x := by
  rw [hstep rest]
  rfl

lemma timesSucc {first second : Bytes} {xs : List α} {n : Nat} (hstep : Takes step first x)
    (hrest : Takes (readTimes step n) second xs) : Takes (readTimes step (n + 1)) (first ++ second) (x :: xs) :=
  hstep.bind (hrest.map (x :: ·))

end Takes

lemma writeCompressed_eq_ok (h : writeCompressed value = .ok bytes) :
    value < 0x80 ∧ bytes = [value.toUInt8] ∨
    (0x80 ≤ value ∧ value < 0x4000) ∧ bytes = [(0x80 + value / 0x100).toUInt8, value.toUInt8] ∨
    (0x4000 ≤ value ∧ value ≤ compressedLimit) ∧
      bytes = [(0xc0 + value / 0x1000000).toUInt8, (value / 0x10000).toUInt8, (value / 0x100).toUInt8,
        value.toUInt8] := by
  unfold writeCompressed at h
  split at h
  · exact .inl ⟨‹_›, (Except.ok.inj h).symm⟩
  · split at h
    · exact .inr (.inl ⟨⟨by omega, ‹_›⟩, (Except.ok.inj h).symm⟩)
    · split at h
      · exact .inr (.inr ⟨⟨by omega, ‹_›⟩, (Except.ok.inj h).symm⟩)
      · cases h

lemma toNat_toUInt8 (n : Nat) : n.toUInt8.toNat = n % 0x100 := UInt8.toNat_ofNat'

lemma toUInt8_lt_iff {n : Nat} (h : n < 0x100) (bound : UInt8) : n.toUInt8 < bound ↔ n < bound.toNat := by
  rw [UInt8.lt_iff_toNat_lt, toNat_toUInt8, Nat.mod_eq_of_lt h]

/-- A written number is read back. -/
lemma Takes.compressed (h : writeCompressed value = .ok bytes) : Takes readCompressed bytes value := by
  unfold readCompressed
  obtain ⟨hlt, rfl⟩ | ⟨⟨hge, hlt⟩, rfl⟩ | ⟨⟨hge, hle⟩, rfl⟩ := writeCompressed_eq_ok h
  · have hfirst : value.toUInt8 < 0x80 := (toUInt8_lt_iff (by omega) 0x80).mpr hlt
    refine .afterByte ?_
    rw [if_pos hfirst, toNat_toUInt8, Nat.mod_eq_of_lt (by omega)]
    exact .pure value
  · have hlow : value / 0x100 < 0x40 := by omega
    have hhead := fun bound => toUInt8_lt_iff (show 0x80 + value / 0x100 < 0x100 by omega) bound
    refine .afterByte ?_
    rw [if_neg ((not_congr (hhead 0x80)).mpr (Nat.not_lt.mpr (Nat.le_add_right _ _))),
      if_pos ((hhead 0xc0).mpr (Nat.add_lt_add_left hlow 0x80))]
    have hvalue : ((0x80 + value / 0x100).toUInt8.toNat - 0x80) * 0x100 + value.toUInt8.toNat = value := by
      simp only [toNat_toUInt8]
      omega
    refine .afterByte ?_
    rw [hvalue]
    exact .pure value
  · unfold compressedLimit at hle
    have hlow : value / 0x1000000 < 0x20 := by omega
    have hhead := fun bound => toUInt8_lt_iff (show 0xc0 + value / 0x1000000 < 0x100 by omega) bound
    have hnot : ∀ bound : UInt8, bound.toNat ≤ 0xc0 → ¬(0xc0 + value / 0x1000000).toUInt8 < bound :=
      fun bound hbound => (not_congr (hhead bound)).mpr (by omega)
    refine .afterByte ?_
    rw [if_neg (hnot 0x80 (by decide)), if_neg (hnot 0xc0 (by decide)),
      if_pos ((hhead 0xe0).mpr (Nat.add_lt_add_left hlow 0xc0))]
    have hvalue : ((0xc0 + value / 0x1000000).toUInt8.toNat - 0xc0) * 0x1000000 +
        (value / 0x10000).toUInt8.toNat * 0x10000 + (value / 0x100).toUInt8.toNat * 0x100 +
        value.toUInt8.toNat = value := by
      simp only [toNat_toUInt8]
      omega
    refine .afterByte (.afterByte (.afterByte ?_))
    rw [hvalue]
    exact .pure value

lemma afterByte_eq_ok {f : UInt8 → Read β} (h : (readByte >>= f).run bytes = .ok (y, rest)) :
    ∃ byte behind, bytes = byte :: behind ∧ (f byte).run behind = .ok (y, rest) := by
  rw [StateT.run_bind] at h
  obtain ⟨⟨byte, behind⟩, hbyte, hnext⟩ := bind_eq_ok h
  cases bytes with
  | nil => cases hbyte
  | cons first bytes =>
    obtain ⟨rfl, rfl⟩ := Prod.mk.inj (Except.ok.inj hbyte)
    exact ⟨first, bytes, rfl, hnext⟩

lemma exists_rest_of_map_eq_ok {x : α} (h : (step.run bytes).map (·.1) = .ok x) :
    ∃ rest, step.run bytes = .ok (x, rest) := by
  cases hrun : step.run bytes with
  | error cause =>
    rw [hrun] at h
    cases h
  | ok found =>
    rw [hrun] at h
    exact ⟨found.2, by rw [← Except.ok.inj h]⟩

/-- What is read of a number: how many bytes it takes shows in the first. -/
lemma readCompressed_eq_ok (h : readCompressed.run bytes = .ok (value, rest)) :
    (∃ first, bytes = first :: rest ∧ first.toNat < 0x80 ∧ value = first.toNat) ∨
    (∃ first second, bytes = first :: second :: rest ∧ (0x80 ≤ first.toNat ∧ first.toNat < 0xc0) ∧
      value = (first.toNat - 0x80) * 0x100 + second.toNat) ∨
    ∃ first second third fourth, bytes = first :: second :: third :: fourth :: rest ∧
      (0xc0 ≤ first.toNat ∧ first.toNat < 0xe0) ∧
      value = (first.toNat - 0xc0) * 0x1000000 + second.toNat * 0x10000 + third.toNat * 0x100 + fourth.toNat := by
  have hlt : ∀ {first bound : UInt8}, first < bound ↔ first.toNat < bound.toNat := UInt8.lt_iff_toNat_lt
  have hge : ∀ {first bound : UInt8}, ¬first < bound → bound.toNat ≤ first.toNat :=
    fun hnot => Nat.not_lt.mp fun hless => hnot (hlt.mpr hless)
  obtain ⟨first, behind, rfl, hrun⟩ := afterByte_eq_ok h
  split at hrun
  · rename_i hsmall
    cases hrun
    exact .inl ⟨first, rfl, hlt.mp hsmall, rfl⟩
  · rename_i hlarge
    split at hrun
    · rename_i hsmall
      obtain ⟨second, behind, rfl, hsecond⟩ := afterByte_eq_ok hrun
      cases hsecond
      exact .inr (.inl ⟨first, second, rfl, ⟨hge hlarge, hlt.mp hsmall⟩, rfl⟩)
    · rename_i hlarge
      split at hrun
      · rename_i hsmall
        obtain ⟨second, behind, rfl, hsecond⟩ := afterByte_eq_ok hrun
        obtain ⟨third, behind, rfl, hthird⟩ := afterByte_eq_ok hsecond
        obtain ⟨fourth, behind, rfl, hfourth⟩ := afterByte_eq_ok hthird
        cases hfourth
        exact .inr (.inr ⟨first, second, third, fourth, rfl, ⟨hge hlarge, hlt.mp hsmall⟩, rfl⟩)
      · cases hrun

/-- What a step reads does not depend on what follows. -/
def Local (step : Read α) : Prop :=
  ∀ bytes rest value, step.run bytes = .ok (value, rest) →
    ∀ more, step.run (bytes ++ more) = .ok (value, rest ++ more)

namespace Local

lemma pure (value : α) : Local (Pure.pure value : Read α) := by
  rintro bytes rest value h more
  cases h
  rfl

lemma throw (cause : Malformed) : Local (MonadExcept.throw cause : Read α) := by
  rintro bytes rest value h more
  cases h

lemma byte : Local readByte := by
  rintro bytes rest value h more
  cases bytes with
  | nil => cases h
  | cons first bytes =>
    cases h
    rfl

lemma bind {f : α → Read β} (hstep : Local step) (hnext : ∀ x, Local (f x)) : Local (step >>= f) := by
  intro bytes rest value h more
  rw [StateT.run_bind] at h ⊢
  obtain ⟨⟨x, behind⟩, hx, h⟩ := bind_eq_ok h
  rw [hstep bytes behind x hx more]
  exact hnext x behind rest value h more

end Local

lemma readCompressed_local : Local readCompressed := by
  unfold readCompressed
  refine .bind .byte fun first => ?_
  split
  · exact .pure _
  · split
    · exact .bind .byte fun _ => .pure _
    · split
      · exact .bind .byte fun _ => .bind .byte fun _ => .bind .byte fun _ => .pure _
      · exact .throw _

lemma writeCompressed_ne_nil (h : writeCompressed value = .ok bytes) : bytes ≠ [] := by
  rcases writeCompressed_eq_ok h with ⟨-, rfl⟩ | ⟨-, rfl⟩ | ⟨-, rfl⟩ <;> simp

end Metadata

end TypeAtlas
