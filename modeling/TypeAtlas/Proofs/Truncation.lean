import Mathlib.Data.List.TakeWhile
import TypeAtlas.Proofs.Condensing

/-!
Signatures that are cut off. How many bytes a signature takes is found out on the way: counts
drive loops, modifiers and sentinels are passed over. Main statement: the bytes that were taken
settle the signature whatever follows them, and of no shorter beginning of them a signature is
read, only that it has ended too early.
-/

namespace TypeAtlas.Metadata

variable {α β : Type} {value : α} {f : α → Read β} {first second bytes : Bytes}

/-- With these bytes in front the step gives this value and leaves the rest, and a shorter
beginning of them is not enough. -/
structure Settles (step : Read α) (taken : Bytes) (value : α) : Prop where
  takes : Takes step taken value
  ends : ∀ short, short <+: taken → short ≠ taken → step.run short = .error .signatureEnded

/-- Whatever the step reads is settled by the bytes that it takes from the front. -/
def Delimited (step : Read α) : Prop :=
  ∀ bytes rest value, step.run bytes = .ok (value, rest) →
    ∃ taken, bytes = taken ++ rest ∧ Settles step taken value

/-- A beginning of two parts ends within the first, or has it all and ends within the second. -/
lemma strict_prefix_append {short : Bytes} (h : short <+: first ++ second) (hne : short ≠ first ++ second) :
    short <+: first ∧ short ≠ first ∨
      ∃ within, short = first ++ within ∧ within <+: second ∧ within ≠ second := by
  by_cases hlength : first.length ≤ short.length
  · obtain ⟨within, rfl⟩ := List.prefix_of_prefix_length_le (List.prefix_append first second) h hlength
    exact .inr ⟨within, rfl, (List.prefix_append_right_inj first).mp h, fun heq => hne (heq ▸ rfl)⟩
  · have hwithin : short <+: first :=
      List.prefix_of_prefix_length_le h (List.prefix_append first second) (by omega)
    exact .inl ⟨hwithin, fun heq => hlength (Nat.le_of_eq (congrArg List.length heq.symm))⟩

namespace Settles

variable {taken : Bytes}

lemma bind {step : Read α} {x : α} {y : β} (h : Settles step first x) (hf : Settles (f x) second y) :
    Settles (step >>= f) (first ++ second) y where
  takes := h.takes.bind hf.takes
  ends := by
    intro short hshort hne
    rw [StateT.run_bind]
    rcases strict_prefix_append hshort hne with ⟨hwithin, hshorter⟩ | ⟨within, rfl, hwithin, hshorter⟩
    · rw [h.ends short hwithin hshorter]
      rfl
    · rw [h.takes within]
      exact hf.ends within hwithin hshorter

/-- A step that reads nothing from nothing takes at least a byte. -/
lemma ne_nil {step : Read α} (h : Settles step taken value) (hnil : step.run [] = .error .signatureEnded) :
    taken ≠ [] := by
  rintro rfl
  have hread := h.takes []
  rw [List.append_nil, hnil] at hread
  cases hread

lemma ofBlob {step : Read α} (h : Settles step taken value) :
    (∀ more, (step.run (taken ++ more)).map (·.1) = .ok value) ∧
      ∀ short, short <+: taken → short ≠ taken → (step.run short).map (·.1) = .error .signatureEnded := by
  refine ⟨fun more => ?_, fun short hshort hne => ?_⟩
  · rw [h.takes more]
    rfl
  · rw [h.ends short hshort hne]
    rfl

end Settles

namespace Delimited

variable {step : Read α}

lemma pure (value : α) : Delimited (Pure.pure value : Read α) := by
  intro bytes rest read hrun
  cases hrun
  refine ⟨[], rfl, .pure value, fun short hshort hne => ?_⟩
  exact absurd (List.prefix_nil.mp hshort) hne

lemma throw (cause : Malformed) : Delimited (MonadExcept.throw cause : Read α) := by
  intro bytes rest value hrun
  cases hrun

lemma byte : Delimited readByte := by
  intro bytes rest value hrun
  cases bytes with
  | nil => cases hrun
  | cons first bytes =>
    cases hrun
    refine ⟨[value], rfl, .byte value, fun short hshort hne => ?_⟩
    rcases List.prefix_cons_iff.mp hshort with rfl | ⟨within, rfl, hwithin⟩
    · rfl
    · exact absurd (by rw [List.prefix_nil.mp hwithin]) hne

lemma bind (h : Delimited step) (hf : ∀ x, Delimited (f x)) : Delimited (step >>= f) := by
  intro bytes rest value hrun
  rw [StateT.run_bind] at hrun
  obtain ⟨⟨x, behind⟩, hx, hnext⟩ := bind_eq_ok hrun
  obtain ⟨first, rfl, hfirst⟩ := h bytes behind x hx
  obtain ⟨second, rfl, hsecond⟩ := hf x behind rest value hnext
  exact ⟨first ++ second, (List.append_assoc ..).symm, hfirst.bind hsecond⟩

lemma times (h : Delimited step) (n : Nat) : Delimited (readTimes step n) := by
  induction n with
  | zero => exact pure []
  | succ n ih => exact h.bind fun _ => ih.bind fun _ => pure _

lemma length_le (h : Delimited step) {rest : Bytes} (hrun : step.run bytes = .ok (value, rest)) :
    rest.length ≤ bytes.length := by
  obtain ⟨taken, rfl, -⟩ := h bytes rest value hrun
  simp

lemma compressed : Delimited readCompressed := by
  unfold readCompressed
  refine byte.bind fun first => ?_
  split
  · exact pure _
  · split
    · exact byte.bind fun _ => pure _
    · split
      · exact byte.bind fun _ => byte.bind fun _ => byte.bind fun _ => pure _
      · exact throw _

lemma token : Delimited Token.read := by
  refine compressed.bind fun coded => ?_
  cases Token.ofCode coded with
  | ok token => exact pure token
  | error cause => exact throw cause

lemma numbers : Delimited SigType.skipNumbers :=
  compressed.bind fun count => (compressed.times count).bind fun _ => pure ()

lemma instanceKind : Delimited SigType.readInstanceKind := by
  refine byte.bind fun code => ?_
  split
  · exact pure _
  · split
    · exact pure _
    · exact throw _

/-- A signature that is read from a blob is settled by a beginning of the blob. -/
lemma ofBlob (h : Delimited step) {blob : Bytes} (hread : (step.run blob).map (·.1) = .ok value) :
    ∃ taken, taken <+: blob ∧ Settles step taken value := by
  obtain ⟨rest, hrun⟩ := exists_rest_of_map_eq_ok hread
  obtain ⟨taken, rfl, hsettles⟩ := h blob rest value hrun
  exact ⟨taken, List.prefix_append taken rest, hsettles⟩

end Delimited

/-- Two delimited steps that do the same on up to `n` bytes. -/
structure Agree (n : Nat) (step other : Read α) : Prop where
  delimited : Delimited step
  same : ∀ bytes, bytes.length ≤ n → step.run bytes = other.run bytes

namespace Agree

variable {n : Nat} {step other : Read α}

lemma refl (h : Delimited step) : Agree n step step := ⟨h, fun _ _ => rfl⟩

lemma bind {g : α → Read β} (h : Agree n step other) (hf : ∀ x, Agree n (f x) (g x)) :
    Agree n (step >>= f) (other >>= g) where
  delimited := h.delimited.bind fun x => (hf x).delimited
  same := by
    intro bytes hlength
    rw [StateT.run_bind, StateT.run_bind, ← h.same bytes hlength]
    cases hrun : step.run bytes with
    | error cause => rfl
    | ok found =>
      have hle := h.delimited.length_le hrun
      exact (hf found.1).same found.2 (by omega)

lemma map (h : Agree n step other) (wrap : α → β) :
    Agree n (do let value ← step; Pure.pure (wrap value)) (do let value ← other; Pure.pure (wrap value)) :=
  h.bind fun x => refl (.pure (wrap x))

/-- Behind a byte there is one byte less. -/
lemma afterByte {f g : UInt8 → Read β} (h : ∀ code, Agree n (f code) (g code)) :
    Agree (n + 1) (readByte >>= f) (readByte >>= g) where
  delimited := Delimited.byte.bind fun code => (h code).delimited
  same := by
    intro bytes hlength
    cases bytes with
    | nil => rfl
    | cons code bytes => exact (h code).same bytes (Nat.le_of_succ_le_succ hlength)

lemma ite {p : Prop} [Decidable p] {step' other' : Read α} (h : Agree n step other)
    (h' : Agree n step' other') : Agree n (if p then step else step') (if p then other else other') := by
  split
  · exact h
  · exact h'

lemma times (h : Agree n step other) (count : Nat) :
    Agree n (readTimes step count) (readTimes other count) := by
  induction count with
  | zero => exact refl (.pure [])
  | succ count ih => exact h.bind fun _ => ih.map _

end Agree

namespace SigType

variable {fuel : Nat} {fuel' : Nat}

/-- One level agrees where the levels inside it do. -/
lemma readNested_succ_agree {n : Nat} (h : Agree n (readNested fuel) (readNested fuel')) :
    Agree (n + 1) (readNested (fuel + 1)) (readNested (fuel' + 1)) := by
  have hcompressed : Agree n readCompressed readCompressed := .refl .compressed
  have htoken : Agree n Token.read Token.read := .refl .token
  have hnumbers : Agree n skipNumbers skipNumbers := .refl .numbers
  refine .afterByte fun code => ?_
  cases Builtin.ofElementCode? code with
  | some type => exact .refl (.pure _)
  | none =>
    -- one branch for each element that has no keyword, in the order in which they are told apart
    refine .ite (hcompressed.bind fun _ => h) ?_
    refine .ite h ?_
    refine .ite (h.map _) ?_
    refine .ite (h.map _) ?_
    refine .ite (htoken.map _) ?_
    refine .ite (htoken.map _) ?_
    refine .ite (hcompressed.map _) ?_
    refine .ite (hcompressed.map _) ?_
    refine .ite (h.map _) ?_
    refine .ite ?_ ?_
    · exact h.bind fun _ => hcompressed.bind fun _ => hnumbers.bind fun _ => hnumbers.map _
    refine .ite ?_ ?_
    · refine (Agree.refl .instanceKind).bind fun _ => htoken.bind fun _ => ?_
      exact hcompressed.bind fun count => (h.times count).map _
    exact .ite (.refl (.throw _)) (.refl (.throw _))

lemma readNested_delimited (fuel : Nat) : Delimited (readNested fuel) := by
  induction fuel with
  | zero => exact .throw _
  | succ fuel ih => exact (readNested_succ_agree (n := 0) (.refl ih)).delimited

lemma readNested_nil (fuel : Nat) : (readNested fuel).run [] = .error .signatureEnded := by
  cases fuel <;> rfl

/-- Fuel for as many levels as there are bytes is as good as more of it. -/
lemma readNested_agree {n : Nat} (h : n ≤ fuel) (h' : n ≤ fuel') : Agree n (readNested fuel) (readNested fuel') := by
  induction n generalizing fuel fuel' with
  | zero =>
    refine ⟨readNested_delimited fuel, fun bytes hlength => ?_⟩
    obtain rfl := List.length_eq_zero_iff.mp (Nat.le_zero.mp hlength)
    rw [readNested_nil, readNested_nil]
  | succ n ih =>
    obtain ⟨fuel, rfl⟩ : ∃ less, fuel = less + 1 := ⟨fuel - 1, by omega⟩
    obtain ⟨fuel', rfl⟩ : ∃ less, fuel' = less + 1 := ⟨fuel' - 1, by omega⟩
    exact readNested_succ_agree (ih (by omega) (by omega))

lemma readNested_eq_read (h : bytes.length ≤ fuel) : (readNested fuel).run bytes = read.run bytes :=
  (readNested_agree h (Nat.le_refl _)).same bytes (Nat.le_refl _)

lemma read_nil : read.run [] = .error .signatureEnded := readNested_nil 0

/-- What is settled for one run is settled for all: fuel for the longer of two texts does for both. -/
lemma read_delimited : Delimited read := by
  intro bytes rest type hrun
  have hsettled : ∀ fuel, bytes.length ≤ fuel →
      ∃ taken, bytes = taken ++ rest ∧ Settles (readNested fuel) taken type := by
    intro fuel hfuel
    rw [← readNested_eq_read hfuel] at hrun
    exact readNested_delimited fuel bytes rest type hrun
  obtain ⟨taken, rfl, hends⟩ := hsettled _ (Nat.le_refl _)
  refine ⟨taken, rfl, fun more => ?_, fun short hshort hne => ?_⟩
  · obtain ⟨taken', heq, htakes⟩ := hsettled (max (taken ++ rest).length (taken ++ more).length)
      (Nat.le_max_left ..)
    obtain rfl := List.append_cancel_right heq
    rw [← readNested_eq_read (Nat.le_max_right ..)]
    exact htakes.takes more
  · have hlength : short.length ≤ (taken ++ rest).length := by
      have hle := hshort.length_le
      simp only [List.length_append]
      omega
    rw [← readNested_eq_read hlength]
    exact hends.ends short hshort hne

end SigType

/-- Sentinels in front of a type are settled together with the type, which begins with none. -/
lemma behindSentinels_delimited :
    Delimited (do modify (·.dropWhile (· == Element.sentinel)); SigType.read) := by
  intro bytes rest type hrun
  have hrun : SigType.read.run (bytes.dropWhile (· == Element.sentinel)) = .ok (type, rest) := hrun
  obtain ⟨taken, hbehind, hsettles⟩ := SigType.read_delimited _ rest type hrun
  obtain ⟨code, tail, rfl⟩ := List.exists_cons_of_ne_nil (hsettles.ne_nil SigType.read_nil)
  have hcode : (code == Element.sentinel) = false := by
    have hhead := List.head?_dropWhile_not (· == Element.sentinel) bytes
    rw [hbehind] at hhead
    simpa using hhead
  have hpassed : ∀ c ∈ bytes.takeWhile (· == Element.sentinel), (c == Element.sentinel) = true :=
    fun c hc => List.mem_takeWhile_imp (p := (· == Element.sentinel)) hc
  have hdrop : ∀ more, (bytes.takeWhile (· == Element.sentinel) ++ more).dropWhile (· == Element.sentinel) =
      more.dropWhile (· == Element.sentinel) := fun more => List.dropWhile_append_of_pos hpassed
  refine ⟨bytes.takeWhile (· == Element.sentinel) ++ code :: tail, ?_, ?_, ?_⟩
  · rw [List.append_assoc, ← hbehind, List.takeWhile_append_dropWhile]
  · intro more
    change SigType.read.run (List.dropWhile _ _) = _
    rw [List.append_assoc, hdrop, List.cons_append, List.dropWhile_cons_of_neg (by simp [hcode])]
    exact hsettles.takes more
  · intro short hshort hne
    change SigType.read.run (List.dropWhile _ short) = _
    rcases strict_prefix_append hshort hne with ⟨hwithin, -⟩ | ⟨within, rfl, hwithin, hshorter⟩
    · have hall : ∀ c ∈ short, (c == Element.sentinel) = true := fun c hc => hpassed c (hwithin.subset hc)
      rw [List.dropWhile_eq_nil_iff.mpr hall]
      exact SigType.read_nil
    · rw [hdrop]
      rcases List.prefix_cons_iff.mp hwithin with rfl | ⟨behind, rfl, -⟩
      · exact SigType.read_nil
      · rw [List.dropWhile_cons_of_neg (by simp [hcode])]
        exact hsettles.ends _ hwithin hshorter

lemma readParams_delimited (count : Nat) : Delimited (readParams count) := by
  induction count with
  | zero => exact .pure []
  | succ count ih =>
    have hparams := behindSentinels_delimited.bind fun type => ih.bind fun types => .pure (type :: types)
    rwa [bind_assoc] at hparams

lemma MethodSig.read_delimited : Delimited MethodSig.read := by
  rw [MethodSig.read_cases]
  refine Delimited.byte.bind fun first => ?_
  split
  · exact .throw _
  · have hgenerics : Delimited (if Convention.isGeneric first then readCompressed else pure 0) := by
      split
      · exact .compressed
      · exact .pure 0
    refine hgenerics.bind fun _ => Delimited.compressed.bind fun count => ?_
    exact SigType.read_delimited.bind fun _ => (readParams_delimited count).bind fun _ => .pure _

lemma PropertySig.read_delimited : Delimited PropertySig.read := by
  rw [PropertySig.read_cases]
  refine Delimited.byte.bind fun first => ?_
  split
  · exact .throw _
  · refine Delimited.compressed.bind fun count => ?_
    exact SigType.read_delimited.bind fun _ => (readParams_delimited count).bind fun _ => .pure _

/-- Whatever bytes a signature was read from, a beginning of them settles it: with anything else
behind that beginning the same signature is read, and every shorter beginning has ended too early.
A type leaves all that stands behind its bytes, of which there is at least one. -/
theorem truncated_signatures_fail :
    (∀ bytes type rest, SigType.read.run bytes = .ok (type, rest) →
      ∃ taken, bytes = taken ++ rest ∧ taken ≠ [] ∧
        (∀ more, SigType.read.run (taken ++ more) = .ok (type, more)) ∧
        ∀ short, short <+: taken → short ≠ taken → SigType.read.run short = .error .signatureEnded) ∧
    (∀ blob sig, MethodSig.ofBlob blob = .ok sig →
      ∃ taken, taken <+: blob ∧ (∀ more, MethodSig.ofBlob (taken ++ more) = .ok sig) ∧
        ∀ short, short <+: taken → short ≠ taken → MethodSig.ofBlob short = .error .signatureEnded) ∧
    (∀ blob sig, PropertySig.ofBlob blob = .ok sig →
      ∃ taken, taken <+: blob ∧ (∀ more, PropertySig.ofBlob (taken ++ more) = .ok sig) ∧
        ∀ short, short <+: taken → short ≠ taken → PropertySig.ofBlob short = .error .signatureEnded) ∧
    (Fault.malformed .signatureEnded).message = "malformed input: signature ended unexpectedly" := by
  refine ⟨?_, ?_, ?_, by decide⟩
  · intro bytes type rest hread
    obtain ⟨taken, hbytes, hsettles⟩ := SigType.read_delimited bytes rest type hread
    exact ⟨taken, hbytes, hsettles.ne_nil SigType.read_nil, hsettles.takes, hsettles.ends⟩
  · intro blob sig hread
    obtain ⟨taken, hblob, hsettles⟩ := MethodSig.read_delimited.ofBlob hread
    exact ⟨taken, hblob, hsettles.ofBlob⟩
  · intro blob sig hread
    obtain ⟨taken, hblob, hsettles⟩ := PropertySig.read_delimited.ofBlob hread
    exact ⟨taken, hblob, hsettles.ofBlob⟩

/-- The signature with a modifier, an over-long row, bounds and a sentinel, and three bytes behind it. -/
theorem truncated_signatures_fail_loose :
    MethodSig.ofBlob (looseMethod ++ [0x41, 0x08, 0xff]) = .ok methodOfLoose ∧
      ∃ taken, taken <+: looseMethod ++ [0x41, 0x08, 0xff] ∧
        (∀ more, MethodSig.ofBlob (taken ++ more) = .ok methodOfLoose) ∧
        ∀ short, short <+: taken → short ≠ taken → MethodSig.ofBlob short = .error .signatureEnded :=
  ⟨rfl, truncated_signatures_fail.2.1 (looseMethod ++ [0x41, 0x08, 0xff]) methodOfLoose rfl⟩

end TypeAtlas.Metadata
