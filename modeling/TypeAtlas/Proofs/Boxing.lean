import TypeAtlas.Proofs.AttributeReading

/-!
Arguments for objects. Such an argument is read behind a tag but written without one, so where
it was written everything that follows is read too late. Main statement: a complete value that
was read can always be written, and is read back for the same constructor exactly when no
parameter of it stands for an object.
-/

namespace TypeAtlas.Metadata

variable {argument : Argument} {first bytes rest written behind second taken : Bytes} {β α : Type}
  {param : SigType}

/-- Nothing but zero bytes. -/
def Blank (bytes : Bytes) : Prop := ∀ byte ∈ bytes, byte = 0

namespace Blank

lemma append (hfirst : Blank first) (hsecond : Blank second) : Blank (first ++ second) := by
  intro byte hbyte
  rcases List.mem_append.mp hbyte with hbyte | hbyte
  · exact hfirst byte hbyte
  · exact hsecond byte hbyte

lemma drop (h : Blank bytes) (n : Nat) : Blank (bytes.drop n) :=
  fun byte hbyte => h byte (List.mem_of_mem_drop hbyte)

end Blank

variable {zeros : Bytes} {shift : Nat}

/-- Bytes that come again later, with zeros behind them, are zeros themselves. -/
lemma blank_of_shift (hzeros : Blank zeros) (hshift : 0 < shift) (h : bytes <+: (bytes ++ zeros).drop shift) :
    Blank bytes := by
  obtain ⟨rest, hrest⟩ := h
  -- From the last byte to the first: each byte is equal to one that stands later.
  have hplace : ∀ left place, bytes.length - place ≤ left → ∀ byte, bytes[place]? = some byte → byte = 0 := by
    intro left
    induction left with
    | zero =>
      intro place hleft byte hbyte
      have hlt := (List.getElem?_eq_some_iff.mp hbyte).1
      omega
    | succ left ih =>
      intro place hleft byte hbyte
      have hlt := (List.getElem?_eq_some_iff.mp hbyte).1
      have hlater : (bytes ++ zeros)[shift + place]? = some byte := by
        rw [← List.getElem?_drop, ← hrest, List.getElem?_append_left hlt]
        exact hbyte
      by_cases hinside : shift + place < bytes.length
      · rw [List.getElem?_append_left hinside] at hlater
        exact ih (shift + place) (by omega) byte hlater
      · rw [List.getElem?_append_right (by omega)] at hlater
        exact hzeros byte (List.mem_of_getElem? hlater)
  intro byte hbyte
  obtain ⟨place, hget⟩ := List.getElem?_of_mem hbyte
  exact hplace bytes.length place (by omega) byte hget

/-- The byte at a place, zero where there is none. -/
def digit (bytes : Bytes) (place : Nat) : Nat := (bytes[place]?.getD 0).toNat

lemma digit_drop (bytes : Bytes) (n place : Nat) : digit (bytes.drop n) place = digit bytes (n + place) := by
  rw [digit, digit, List.getElem?_drop]

lemma digit_behind (hzeros : Blank zeros) {place : Nat} (h : bytes.length ≤ place) :
    digit (bytes ++ zeros) place = 0 := by
  rw [digit, List.getElem?_append_right h]
  cases hbyte : zeros[place - bytes.length]? with
  | none => rfl
  | some byte =>
    rw [hzeros byte (List.mem_of_getElem? hbyte)]
    rfl

lemma map_eq_ok {step : Read α} {wrap : α → β} {value : β}
    (h : (do let x ← step; pure (wrap x)).run bytes = .ok (value, rest)) :
    ∃ x, step.run bytes = .ok (x, rest) ∧ wrap x = value := by
  rw [StateT.run_bind] at h
  obtain ⟨⟨x, behind⟩, hstep, hpure⟩ := bind_eq_ok h
  cases hpure
  exact ⟨x, hstep, rfl⟩

lemma readCompressed_digits {value : Nat} (h : readCompressed.run bytes = .ok (value, rest)) :
    digit bytes 0 < 0x80 ∧ value = digit bytes 0 ∨
    (0x80 ≤ digit bytes 0 ∧ digit bytes 0 < 0xc0) ∧
      value = (digit bytes 0 - 0x80) * 0x100 + digit bytes 1 ∨
    (0xc0 ≤ digit bytes 0 ∧ digit bytes 0 < 0xe0) ∧
      value = (digit bytes 0 - 0xc0) * 0x1000000 + digit bytes 1 * 0x10000 + digit bytes 2 * 0x100 +
        digit bytes 3 := by
  obtain ⟨first, rfl, hread⟩ | ⟨first, second, rfl, hread⟩ | ⟨first, second, third, fourth, rfl, hread⟩ :=
    readCompressed_eq_ok h
  · exact .inl hread
  · exact .inr (.inl hread)
  · exact .inr (.inr hread)

/-- A number other than zero is not read again when its bytes are read too late. -/
lemma readCompressed_late {value : Nat} (hzeros : Blank zeros) (hshift : 0 < shift)
    (hwritten : writeCompressed value = .ok written)
    (h : readCompressed.run ((written ++ zeros).drop shift) = .ok (value, rest)) : value = 0 := by
  have hbehind : ∀ place, written.length ≤ place → digit (written ++ zeros) place = 0 :=
    fun place => digit_behind hzeros
  have hread := readCompressed_digits h
  simp only [digit_drop] at hread
  by_cases hpast : written.length ≤ shift
  · have hnone : ∀ place, digit (written ++ zeros) (shift + place) = 0 := fun place => hbehind _ (by omega)
    simp only [hnone] at hread
    omega
  · obtain ⟨-, rfl⟩ | ⟨⟨hge, -⟩, rfl⟩ | ⟨⟨hge, -⟩, rfl⟩ := writeCompressed_eq_ok hwritten
    · exact absurd hshift hpast
    · obtain rfl : shift = 1 := by
        simp only [List.length_cons, List.length_nil] at hpast
        omega
      have hlast : digit ([(0x80 + value / 0x100).toUInt8, value.toUInt8] ++ zeros) 1 = value % 0x100 := toNat_toUInt8 value
      simp only [Nat.reduceAdd, hlast, hbehind 2 (Nat.le_refl _), hbehind 3 (Nat.le_add_right 2 1),
        hbehind 4 (Nat.le_add_right 2 2)] at hread
      omega
    · generalize hbytes : [(0xc0 + value / 0x1000000).toUInt8, (value / 0x10000).toUInt8,
        (value / 0x100).toUInt8, value.toUInt8] = bytes at *
      have hlen : bytes.length = 4 := by rw [← hbytes]; rfl
      have hsecond : digit (bytes ++ zeros) 1 = value / 0x10000 % 0x100 := hbytes ▸ toNat_toUInt8 _
      have hthird : digit (bytes ++ zeros) 2 = value / 0x100 % 0x100 := hbytes ▸ toNat_toUInt8 _
      have hfourth : digit (bytes ++ zeros) 3 = value % 0x100 := hbytes ▸ toNat_toUInt8 _
      have hnone : ∀ place, 4 ≤ place → digit (bytes ++ zeros) place = 0 := fun place h => hbehind _ (hlen ▸ h)
      obtain rfl | rfl | rfl : shift = 1 ∨ shift = 2 ∨ shift = 3 := by omega
      all_goals
        simp only [Nat.reduceAdd, hsecond, hthird, hfourth, hnone 4 (by decide), hnone 5 (by decide),
          hnone 6 (by decide)] at hread
        omega

/-- Where the step begins too late in the form of a value, with zeros behind it, it only reads
that value again if the form is blank. -/
def BlankLate {α : Type} (step : Read α) (form : α → Bytes → Prop) : Prop :=
  ∀ zeros shift, Blank zeros → 0 < shift → ∀ value written rest, form value written →
    step.run ((written ++ zeros).drop shift) = .ok (value, rest) → Blank written

lemma BlankLate.map {step : Read α} {wrap : α → β} {form : α → Bytes → Prop} {whole : β → Bytes → Prop}
    (h : BlankLate step form) (hwrap : ∀ x written, whole (wrap x) written → form x written) :
    BlankLate (do let x ← step; pure (wrap x)) whole := by
  intro zeros shift hzeros hshift value written rest hwritten hrun
  obtain ⟨x, hstep, rfl⟩ := map_eq_ok hrun
  exact h zeros shift hzeros hshift x written rest (hwrap x written hwritten) hstep

/-- A step that takes no fewer bytes than were written leaves what follows just as late. -/
lemma exists_drop_behind (hshift : 0 < shift) (h : (first ++ behind).drop shift = taken ++ rest)
    (hlen : first.length ≤ taken.length) : ∃ later, 0 < later ∧ rest = behind.drop later := by
  refine ⟨shift + taken.length - first.length, by omega, ?_⟩
  have hrest : rest = ((first ++ behind).drop shift).drop taken.length := by
    rw [h, List.drop_left]
  rw [hrest, List.drop_drop, List.drop_append, List.drop_eq_nil_of_le (by omega), List.nil_append]

lemma exists_drop_later (hshift : 0 < shift) (h : bytes.drop shift = taken ++ rest) :
    ∃ later, 0 < later ∧ rest = bytes.drop later :=
  exists_drop_behind hshift (h : ([] ++ bytes).drop shift = taken ++ rest) (Nat.zero_le _)

lemma blank_drop_singleton (hzeros : Blank zeros) (hshift : 0 < shift) (byte : UInt8) :
    Blank (([byte] ++ zeros).drop shift) := by
  cases shift with
  | zero => cases hshift
  | succ shift => exact hzeros.drop shift

lemma readText_late : BlankLate readText fun value written => writeText value = .ok written := by
  intro zeros shift hzeros hshift value written rest hwritten h
  rcases readText_eq_ok h with ⟨rfl, hbytes⟩ | ⟨text, rfl, hlength⟩
  · -- The mark for none would stand among the zeros.
    cases hwritten
    have hblank := blank_drop_singleton hzeros hshift noText
    rw [hbytes] at hblank
    exact absurd (hblank noText List.mem_cons_self) (by decide)
  · obtain ⟨length, hlen, hrest⟩ := bind_eq_ok hwritten
    cases hrest
    rw [List.append_assoc] at hlength
    have htext : Blank (Text.Utf8.encode text) := by
      obtain ⟨taken, number, hbytes, hnumber, hle⟩ := readCompressed_condenses _ _ _ hlength
      obtain rfl : number = length := Except.ok.inj (hnumber.symm.trans hlen)
      obtain ⟨later, hlater, hdrop⟩ := exists_drop_behind hshift hbytes hle
      exact blank_of_shift hzeros hlater ⟨rest, hdrop⟩
    have hnone := readCompressed_late (htext.append hzeros) hshift hlen hlength
    rw [hnone] at hlen
    cases hlen
    have hnumber : Blank [0] := by simp [Blank]
    exact hnumber.append htext

namespace Argument

/-- Half of a pair was replaced when it was read, and the replacement is not half of a pair. -/
lemma char_late {unit : Nat} (hzeros : Blank zeros) (hshift : 0 < shift) (hlt : unit < 0x10000)
    (h : (writeLittle 2 (charOfUnit unit).toNat ++ zeros).drop shift = writeLittle 2 unit ++ rest) :
    Blank (writeLittle 2 (charOfUnit unit).toNat) := by
  rw [toNat_charOfUnit hlt] at h ⊢
  split
  · rename_i hhalf
    rw [if_pos hhalf] at h
    have hhigh : digit ((writeLittle 2 0xfffd ++ zeros).drop shift) 1 = unit / 256 % 256 := by
      rw [h]
      exact UInt8.toNat_ofNat'
    rw [digit_drop, digit_behind hzeros (by rw [length_writeLittle]; omega)] at hhigh
    omega
  · rename_i hwhole
    rw [if_neg hwhole] at h
    exact blank_of_shift hzeros hshift ⟨rest, h.symm⟩

/-- An argument was found, and it has this written form. -/
def WrittenAs (found : Option Argument) (written : Bytes) : Prop :=
  ∃ argument ∈ found, argument.write = .ok written

lemma none_late : BlankLate (pure none) WrittenAs := by
  rintro zeros shift hzeros hshift found written rest ⟨argument, hargument, -⟩ h
  cases h
  cases hargument

lemma typeName_late : BlankLate (do let name ← readText; pure (some (typeName name))) WrittenAs := by
  refine readText_late.map ?_
  rintro name written ⟨_, ⟨⟩, hwritten⟩
  exact hwritten

/-- The bytes of a number are those it was read from, and so they come again. -/
lemma number_late {type : Builtin} {n : Nat} {wrap : Nat → Argument} (h : number? type = some (n, wrap)) :
    BlankLate (readBuiltin type) WrittenAs := by
  rw [readBuiltin_of_number h]
  rintro zeros shift hzeros hshift found written rest ⟨argument, hargument, hwritten⟩ hrun
  obtain ⟨number, hread, rfl⟩ := map_eq_ok hrun
  cases hargument
  obtain ⟨hbytes, hlt⟩ := readLittle_eq_ok hread
  cases (stored_number h hlt).2.1.symm.trans hwritten
  exact blank_of_shift hzeros hshift ⟨rest, hbytes.symm⟩

lemma readBuiltin_late (type : Builtin) : BlankLate (readBuiltin type) WrittenAs := by
  cases type with
  | bool =>
    rintro zeros shift hzeros hshift found written rest ⟨argument, hargument, hwritten⟩ h
    obtain ⟨byte, behind, hbytes, hpure⟩ := afterByte_eq_ok h
    cases hpure
    cases hargument
    cases hwritten
    have hblank := blank_drop_singleton hzeros hshift (if byte != 0 then 1 else 0)
    rw [hbytes] at hblank
    rw [hblank byte List.mem_cons_self]
    simp [Blank]
  | byte =>
    rintro zeros shift hzeros hshift found written rest ⟨argument, hargument, hwritten⟩ h
    obtain ⟨byte, behind, hbytes, hpure⟩ := afterByte_eq_ok h
    cases hpure
    cases hargument
    cases hwritten
    exact blank_of_shift hzeros hshift ⟨_, hbytes.symm⟩
  | char =>
    rintro zeros shift hzeros hshift found written rest ⟨argument, hargument, hwritten⟩ h
    obtain ⟨unit, hread, rfl⟩ := map_eq_ok h
    cases hargument
    obtain ⟨hbytes, hlt⟩ := readLittle_eq_ok hread
    cases hwritten
    exact char_late hzeros hshift hlt hbytes
  | string =>
    refine readText_late.map ?_
    rintro text written ⟨_, ⟨⟩, hwritten⟩
    exact hwritten
  | decimal => exact none_late
  | nint => exact none_late
  | nuint => exact none_late
  | object => exact none_late
  | void => exact none_late
  | _ => exact number_late rfl

/-- The tags of boxes only make it later. -/
lemma readTagged_late (tag : UInt8) : BlankLate (readTagged tag) WrittenAs := by
  intro zeros shift hzeros hshift found written rest hwritten h
  change (unbox tag >>= _).run _ = _ at h
  rw [StateT.run_bind] at h
  obtain ⟨⟨inner, behind⟩, hunbox, hread⟩ := bind_eq_ok h
  obtain ⟨taken, -, hbytes, -, -⟩ := unbox_condenses tag _ _ _ hunbox
  obtain ⟨later, hlater, rfl⟩ := exists_drop_later hshift hbytes
  dsimp only at hread
  split at hread
  · exact typeName_late zeros later hzeros hlater found written rest hwritten hread
  · split at hread
    · exact readBuiltin_late _ zeros later hzeros hlater found written rest hwritten hread
    · exact none_late zeros later hzeros hlater found written rest hwritten hread

lemma readFixed_late (m : Module) (param : SigType) : BlankLate (readFixed m param) WrittenAs := by
  cases param with
  | builtin type =>
    by_cases hobject : type = .object
    · subst hobject
      intro zeros shift hzeros hshift found written rest hwritten h
      obtain ⟨tag, behind, hbytes, hread⟩ := afterByte_eq_ok h
      have htaken : (written ++ zeros).drop shift = [tag] ++ behind := hbytes
      obtain ⟨later, hlater, rfl⟩ := exists_drop_later hshift htaken
      exact readTagged_late tag zeros later hzeros hlater found written rest hwritten hread
    · rw [readFixed_builtin m hobject]
      exact readBuiltin_late type
  | classType token =>
    intro zeros shift hzeros hshift found written rest hwritten h
    rw [readFixed, StateT.run_bind] at h
    obtain ⟨⟨name, behind⟩, hname, hread⟩ := bind_eq_ok h
    have hbehind : behind = (written ++ zeros).drop shift := by
      cases hfound : m.typeName token with
      | error cause =>
        rw [hfound] at hname
        cases hname
      | ok found =>
        rw [hfound] at hname
        exact (Prod.mk.inj (Except.ok.inj hname)).2.symm
    subst hbehind
    dsimp only at hread
    split at hread
    · exact typeName_late zeros shift hzeros hshift found written rest hwritten hread
    · exact none_late zeros shift hzeros hshift found written rest hwritten hread
  | _ => exact none_late

/-- An argument that is read too late leaves what follows too late as well. -/
lemma readFixed_leaves_late {m : Module} (hshift : 0 < shift)
    (hwritten : argument.write = .ok written)
    (h : (readFixed m param).run ((written ++ behind).drop shift) = .ok (some argument, rest)) :
    ∃ later, 0 < later ∧ rest = behind.drop later := by
  obtain ⟨taken, form, hbytes, hform, hlen⟩ := readFixed_condenses m param _ _ _ h
  have hle : written.length ≤ form.length := by
    have hstored := hform argument rfl
    split at hstored
    · obtain ⟨tag, inner, rfl, hinner, -⟩ := hstored
      obtain rfl : inner = written := Except.ok.inj (hinner.symm.trans hwritten)
      exact Nat.le_succ _
    · obtain rfl : form = written := Except.ok.inj (hstored.2.1.symm.trans hwritten)
      exact Nat.le_refl _
  exact exists_drop_behind hshift hbytes (Nat.le_trans hle hlen)

/-- Zero is the tag of no type. -/
lemma readTagged_zero (bytes : Bytes) : (readTagged 0).run bytes = .ok (none, bytes) := by
  cases bytes <;> rfl

end Argument

namespace AttributeValue

variable {arguments : List Argument}

lemma writeFixed_cons_eq_ok (h : writeFixed (argument :: arguments) = .ok bytes) :
    ∃ first others, argument.write = .ok first ∧ writeFixed arguments = .ok others ∧ bytes = first ++ others := by
  obtain ⟨first, hfirst, h⟩ := bind_eq_ok h
  obtain ⟨others, hothers, h⟩ := bind_eq_ok h
  exact ⟨first, others, hfirst, hothers, (Except.ok.inj h).symm⟩

lemma readFixed_cons_eq_ok {m : Module} {params : List SigType}
    (h : (readFixed m (param :: params)).run bytes = .ok ((arguments, true), rest)) :
    ∃ argument others behind, arguments = argument :: others ∧
      (Argument.readFixed m param).run bytes = .ok (some argument, behind) ∧
      (readFixed m params).run behind = .ok ((others, true), rest) := by
  rw [readFixed, StateT.run_bind] at h
  obtain ⟨⟨found, behind⟩, hfirst, hrest⟩ := bind_eq_ok h
  cases found with
  | none => cases hrest
  | some argument =>
    change (readFixed m params >>= _).run behind = _ at hrest
    rw [StateT.run_bind] at hrest
    obtain ⟨⟨⟨others, complete⟩, left⟩, hothers, hpure⟩ := bind_eq_ok hrest
    cases hpure
    exact ⟨argument, others, behind, rfl, hfirst, hothers⟩

/-- The last argument is blank for what follows it, and so every argument for those behind. -/
lemma readFixed_late (m : Module) (params : List SigType) :
    BlankLate (readFixed m params) fun (arguments, complete) written =>
      complete = true ∧ writeFixed arguments = .ok written := by
  induction params with
  | nil =>
    rintro zeros shift hzeros hshift ⟨arguments, complete⟩ written rest ⟨rfl, hwritten⟩ h
    cases h
    cases hwritten
    simp [Blank]
  | cons param params ih =>
    rintro zeros shift hzeros hshift ⟨arguments, complete⟩ written rest ⟨rfl, hwritten⟩ h
    obtain ⟨argument, others, behind, rfl, hfirst, hothers⟩ := readFixed_cons_eq_ok h
    obtain ⟨first, second, hargument, hwrite, rfl⟩ := writeFixed_cons_eq_ok hwritten
    rw [List.append_assoc] at hfirst
    obtain ⟨later, hlater, rfl⟩ := Argument.readFixed_leaves_late hshift hargument hfirst
    have hsecond : Blank second :=
      ih zeros later hzeros hlater (others, true) second rest ⟨rfl, hwrite⟩ hothers
    have hblank : Blank first :=
      Argument.readFixed_late m param (second ++ zeros) shift (hsecond.append hzeros) hshift (some argument)
        first _ ⟨argument, rfl, hargument⟩ hfirst
    exact hblank.append hsecond

section

variable {m : Module} {params : List SigType}

/-- An argument for an object, and what is written behind it, are not read back: the tag would
be the first of bytes that are all zeros. -/
lemma readFixed_object_ne {others : List Argument} (hzeros : Blank zeros)
    (hargument : argument.write = .ok first) (hwritten : writeFixed others = .ok second)
    (hothers : (readFixed m params).run behind = .ok ((others, true), rest)) :
    (Argument.readFixed m (.builtin .object)).run (first ++ (second ++ zeros)) ≠ .ok (some argument, behind) := by
  intro h
  obtain ⟨tag, bytes, hbytes, hread⟩ := afterByte_eq_ok h
  have hdrop : (first ++ (second ++ zeros)).drop 1 = bytes := by rw [hbytes]; rfl
  rw [← hdrop] at hread
  obtain ⟨taken, form, htaken, hform, hlen⟩ := Argument.readTagged_condenses tag _ _ _ hread
  obtain rfl : form = first := Except.ok.inj ((hform argument rfl).1.symm.trans hargument)
  obtain ⟨later, hlater, rfl⟩ := exists_drop_behind Nat.one_pos htaken hlen
  have hsecond : Blank second :=
    readFixed_late m params zeros later hzeros hlater (others, true) second rest ⟨rfl, hwritten⟩ hothers
  have hfirst : Blank form :=
    Argument.readTagged_late tag (second ++ zeros) 1 (hsecond.append hzeros) Nat.one_pos (some argument) form _
      ⟨argument, rfl, hargument⟩ hread
  have htag : tag = 0 :=
    hfirst.append (hsecond.append hzeros) tag (by rw [hbytes]; exact List.mem_cons_self)
  subst htag
  rw [Argument.readTagged_zero] at hread
  cases hread

/-- Arguments of which one is for an object are not read from what is written of them. -/
lemma readFixed_ne_of_object (hzeros : Blank zeros) (hfor : FixedFor m params arguments)
    (hwritten : writeFixed arguments = .ok written) (hobject : SigType.builtin .object ∈ params) :
    (readFixed m params).run (written ++ zeros) ≠ .ok ((arguments, true), rest) := by
  intro h
  induction params generalizing arguments written with
  | nil => cases hobject
  | cons param params ih =>
    obtain ⟨argument, others, behind, rfl, hfirst, hothers⟩ := readFixed_cons_eq_ok h
    obtain ⟨first, second, hargument, hwrite, rfl⟩ := writeFixed_cons_eq_ok hwritten
    obtain ⟨hisFor, hrestFor⟩ := List.forall₂_cons.mp hfor.isFor
    rw [List.append_assoc] at hfirst
    by_cases hparam : param = .builtin .object
    · subst hparam
      exact readFixed_object_ne hzeros hargument hwrite hothers hfirst
    · -- Up to the first object everything is read where it was written.
      have hmem : SigType.builtin .object ∈ params := (List.mem_cons.mp hobject).resolve_left (Ne.symm hparam)
      have htakes := Argument.takes_readFixed (hisFor (SigType.isObject_eq_false hparam))
        (hfor.fits argument List.mem_cons_self) hargument
      obtain ⟨-, rfl⟩ := Prod.mk.inj (Except.ok.inj (hfirst.symm.trans (htakes _)))
      exact ih ⟨hrestFor, (List.forall_mem_cons.mp hfor.fits).2⟩ hwrite hmem hothers

lemma FixedFor.forall₂ (hfor : FixedFor m params arguments) (hobject : SigType.builtin .object ∉ params) :
    List.Forall₂ (Argument.IsFor m) params arguments := by
  obtain ⟨hisFor, -⟩ := hfor
  induction hisFor with
  | nil => exact .nil
  | cons hfirst hrest ih =>
    obtain ⟨hparam, hparams⟩ := not_or.mp (List.mem_cons.not.mp hobject)
    exact .cons (hfirst (SigType.isObject_eq_false (Ne.symm hparam))) (ih hparams)

/-- A value with an argument for an object is not read from what is written of it. By the
lengths alone, the named arguments would have been read as well. -/
lemma ofBlob_ne_of_object {value : AttributeValue}
    {fixed named : Bytes} (hcomplete : value.complete = true) (hfixed : writeFixed value.fixed = .ok fixed)
    (hnamed : writeNamed value.named = .ok named) (hobject : SigType.builtin .object ∈ params) :
    ofBlob m params (writeLittle 2 prolog ++ fixed ++ writeLittle 2 value.named.length ++ named) ≠ .ok value := by
  intro h
  obtain ⟨taken, behind, form, hblob, hrun, hfor, hform, hlen, htail⟩ :=
    ofBlob_eq_ok (by simp [writeLittle]) h hcomplete
  obtain rfl : form = fixed := Except.ok.inj (hform.symm.trans hfixed)
  have hcount : 0 < params.countP SigType.isObject :=
    List.countP_pos_iff.mpr ⟨.builtin .object, hobject, rfl⟩
  rw [List.append_assoc, List.append_assoc, List.append_cancel_left_eq] at hblob
  have hlengths := congrArg List.length hblob
  simp only [List.length_append, length_writeLittle] at hlengths
  rcases htail with ⟨-, hnone⟩ | ⟨-, -, written, hwritten, hle⟩
  · rw [hnone] at hnamed hblob
    cases hnamed
    have hzeros : Blank (writeLittle 2 ([] : List NamedArgument).length ++ []) := by
      simp [Blank, writeLittle]
    rw [← hblob] at hrun
    exact readFixed_ne_of_object hzeros hfor hfixed hobject hrun
  · obtain rfl : written = named := Except.ok.inj (hwritten.symm.trans hnamed)
    omega

end

/-- A complete value that was read can be written, and what is written is read as that value
for the same constructor exactly when no parameter of the constructor stands for an object. -/
theorem read_value_written_back_iff (m : Module) (constructor : MethodSig) (blob : Bytes)
    (value : AttributeValue) (hblob : blob ≠ []) (hread : ofBlob m constructor.params blob = .ok value)
    (hcomplete : value.complete = true) :
    ∃ written, value.write = .ok written ∧
      (ofBlob m constructor.params written = .ok value ↔
        SigType.builtin .object ∉ constructor.params) := by
  have hfits := fits_of_ofBlob hblob hread hcomplete
  obtain ⟨-, -, -, -, -, hfor, -, -, -⟩ := ofBlob_eq_ok hblob hread hcomplete
  obtain ⟨fixed, named, hfixed, hnamed, hwrite⟩ := exists_write hfits
  refine ⟨_, hwrite, fun hback hobject => ?_, fun hobject => ?_⟩
  · exact ofBlob_ne_of_object hcomplete hfixed hnamed hobject hback
  · have hback := ofBlob_write hfits (hfor.forall₂ hobject) hwrite []
    rwa [List.append_nil] at hback

/-- A constructor that takes a text and a truth value. -/
def flagConstructor : MethodSig :=
  ⟨true, 0, .builtin .void, [.builtin .string, .builtin .bool]⟩

/-- An over-long text length, a truth value other than one, a boxed field without a name and a
byte too many. -/
def flagBlob : Bytes := [1, 0, 0x80, 1, 0x41, 7, 1, 0, 0x53, 0x51, 0xff, 0x51, 0x02, 3, 0xee]

def flag : AttributeValue where
  fixed := [.text (some "A"), .bool true]
  named := [⟨false, "", .bool true⟩]

lemma ofBlob_flagBlob : ofBlob {} flagConstructor.params flagBlob = .ok flag := by
  with_unfolding_all rfl

theorem read_value_written_back_iff_flag :
    flagBlob ≠ [] ∧ ofBlob {} flagConstructor.params flagBlob = .ok flag ∧ flag.complete = true ∧
      ∃ written, flag.write = .ok written ∧
        (ofBlob {} flagConstructor.params written = .ok flag ↔
          SigType.builtin .object ∉ flagConstructor.params) :=
  ⟨nofun, ofBlob_flagBlob, rfl,
    read_value_written_back_iff {} flagConstructor flagBlob flag nofun ofBlob_flagBlob rfl⟩

def boxConstructor : MethodSig := ⟨true, 0, .builtin .void, [.builtin .object]⟩

/-- Behind the tag of a number stands the number. Written without the tag, its first byte is
read as the tag of no known type. -/
theorem boxed_number_not_read_back :
    ofBlob {} boxConstructor.params [1, 0, 0x08, 42, 0, 0, 0, 0, 0] = .ok ⟨[.int32 42], [], true⟩ ∧
      write ⟨[.int32 42], [], true⟩ = .ok [1, 0, 42, 0, 0, 0, 0, 0] ∧
      ofBlob {} boxConstructor.params [1, 0, 42, 0, 0, 0, 0, 0] = .ok ⟨[], [], false⟩ := by
  refine ⟨?_, ?_, ?_⟩ <;> with_unfolding_all rfl

end AttributeValue

end TypeAtlas.Metadata
