import TypeAtlas.Proofs.DeclarationReading

/-!
How lexemes are laid out as text. `Spells` allows any whitespace between two of them, and none
where they stay apart without it. Whatever the layout, the tokens of the text are the lexemes;
so a plan is read from every text that spells it.
-/

namespace TypeAtlas.Source

variable {text : List Char} {spelling : List Lexeme}

/-- Whether a lexeme ends where `c` stands behind it. -/
def Lexeme.endsBefore (lexeme : Lexeme) (c : Char) : Bool :=
  match lexeme.kind with
  | .word => !Text.isNamePart c
  | .literal | .mark => !Piece.doubleMarks.contains (lexeme.text.toList ++ [c]) && !Text.isAsciiDigit c

/-- A text in which the lexemes stand one behind the other. -/
inductive Spells : List Lexeme → List Char → Prop
  | done : Spells [] []
  | blank {spelling : List Lexeme} {text : List Char} {c : Char} :
      c.isWhitespace = true → Spells spelling text → Spells spelling (c :: text)
  | lexeme {spelling : List Lexeme} {text : List Char} {first : Lexeme} :
      (∀ c ∈ text.head?, first.endsBefore c = true) → Spells spelling text →
        Spells (first :: spelling) (first.text.toList ++ text)

lemma Spells.single (lexeme : Lexeme) : Spells [lexeme] lexeme.text.toList := by
  rw [← List.append_nil lexeme.text.toList]
  exact .lexeme nofun .done

/-- Whether the lexemes are found one behind the other. -/
def isSpelledBy : List Lexeme → List Char → Bool
  | [], text => text.all Char.isWhitespace
  | first :: spelling, text =>
    match (text.dropWhile Char.isWhitespace).dropPrefix? first.text.toList with
    | some rest => rest.head?.all first.endsBefore && isSpelledBy spelling rest
    | none => false

lemma Spells.gap {spelling : List Lexeme} {gap text : List Char} (hgap : ∀ c ∈ gap, c.isWhitespace = true)
    (h : Spells spelling text) : Spells spelling (gap ++ text) := by
  induction gap with
  | nil => exact h
  | cons c gap ih =>
    obtain ⟨hc, hgap⟩ := List.forall_mem_cons.mp hgap
    exact .blank hc (ih hgap)

lemma spells_of_isSpelledBy (h : isSpelledBy spelling text = true) : Spells spelling text := by
  induction spelling generalizing text with
  | nil =>
    rw [← List.append_nil text]
    exact Spells.gap (List.all_eq_true.mp h) .done
  | cons first spelling ih =>
    rw [isSpelledBy] at h
    split at h
    · rename_i rest hrest
      obtain ⟨begin, hsplit, hbegin⟩ := List.dropPrefix?_eq_some_iff.mp hrest
      rw [Bool.and_eq_true] at h
      have hends : ∀ c ∈ rest.head?, first.endsBefore c = true := by
        intro c hc
        have hall := h.1
        rwa [Option.mem_def.mp hc] at hall
      rw [← List.takeWhile_append_dropWhile (p := Char.isWhitespace) (l := text), hsplit, eq_of_beq hbegin]
      exact Spells.gap (List.all_eq_true.mp List.all_takeWhile) (.lexeme hends (ih h.2))
    · cases h

lemma spells_ofList {cs : List Char} (h : isSpelledBy spelling cs = true) :
    Spells spelling (String.ofList cs).toList := by
  rw [String.toList_ofList]
  exact spells_of_isSpelledBy h

/-! The characters that lexemes are made of. -/

lemma isGap_of_isWhitespace {c : Char} (hc : c.isWhitespace = true) : Piece.isGap c = true := by
  simp only [Char.isWhitespace, Bool.or_eq_true, decide_eq_true_eq] at hc
  rcases hc with ((rfl | rfl) | rfl) | rfl <;> decide

lemma isGap_eq_false_of_isNameStart {c : Char} (hc : Text.isNameStart c = true) : Piece.isGap c = false := by
  rw [Bool.eq_false_iff]
  intro hgap
  have hblank := isBlank_eq_false (Text.isNamePart_of_isNameStart hc)
  simp only [Piece.isGap, Bool.or_eq_true, beq_iff_eq, Bool.and_eq_true, decide_eq_true_eq] at hgap
  rcases hgap with (((rfl | ⟨hlow, hhigh⟩) | rfl) | rfl) | rfl
  · revert hblank; decide
  · have hlow : 9 ≤ c.toNat := hlow
    have hhigh : c.toNat ≤ 13 := hhigh
    have hcodes : ∀ code, code < 14 → 9 ≤ code → Text.blankCodes.contains code = true := by decide
    rw [Text.isBlank, hcodes c.toNat (by omega) hlow] at hblank
    cases hblank
  · revert hblank; decide
  · revert hc; decide +kernel
  · revert hblank; decide

lemma plainMarks_sound {c : Char} (hc : c ∈ plainMarks) : Piece.isGap c = false ∧ Text.isNameStart c = false ∧
    Text.isAsciiDigit c = false ∧ c ∉ ['/', '#', '@', '\'', '"', '$'] ∧ [c] ∉ Piece.doubleMarks ∧
    c ∈ Piece.singleMarks := by
  have hall : (plainMarks.all fun c => !Piece.isGap c && (!Text.isNameStart c && (!Text.isAsciiDigit c &&
      (!(['/', '#', '@', '\'', '"', '$'].contains c) && (!Piece.doubleMarks.contains [c] &&
        Piece.singleMarks.contains c))))) = true := by
    decide +kernel
  have hmark := List.all_eq_true.mp hall c hc
  simpa only [Bool.and_eq_true, Bool.not_eq_true', List.contains_eq_mem, decide_eq_false_iff_not,
    decide_eq_true_eq] using hmark

/-- Blanks, and marks that stand around types and members. -/
def closers : List Char := [' ', '\n', '<', '>', ',', '[', ']', '(', ')', ';', '\x7b', '\x7d']

/-- A text that begins with one of these, if it begins with anything. -/
def Closed (text : List Char) : Prop := ∀ c ∈ text.head?, c ∈ closers

lemma Closed.cons {c : Char} (h : c ∈ closers) (text : List Char) : Closed (c :: text) :=
  fun _ hc => (Option.mem_some.mp hc) ▸ h

/-- Whatever a lexeme is, it ends where such a text begins. -/
lemma Closed.endsBefore {lexeme : Lexeme} (htext : Closed text) (h : lexeme.isLexical = true) :
    ∀ c ∈ text.head?, lexeme.endsBefore c = true := by
  intro c hc
  have hall : (closers.all fun c => !Text.isNamePart c && (!Text.isAsciiDigit c &&
      plainMarks.all fun first => !Piece.doubleMarks.contains [first, c])) = true := by decide +kernel
  have hparts := List.all_eq_true.mp hall c (htext c hc)
  simp only [Bool.and_eq_true, Bool.not_eq_true', List.all_eq_true, List.contains_eq_mem,
    decide_eq_false_iff_not] at hparts
  obtain ⟨hpart, hdigit, hdouble⟩ := hparts
  unfold Lexeme.isLexical at h
  unfold Lexeme.endsBefore
  split at h
  · rename_i hkind _
    rw [hkind, hpart]
    rfl
  · rename_i hkind _
    rw [hkind, hpart]
    rfl
  · rename_i first hkind htext
    have hnot := hdouble first (List.contains_iff_mem.mp h)
    rw [hkind, htext]
    simp [List.contains_eq_mem, hnot, hdigit]
  · cases h

lemma Closed.endsBefore_append {lexeme : Lexeme} {rest : List Char} (hrest : Closed rest) (h : lexeme.isLexical = true)
    (htext : ∀ c ∈ text.head?, lexeme.endsBefore c = true) : ∀ c ∈ (text ++ rest).head?, lexeme.endsBefore c = true := by
  cases text with
  | nil => exact hrest.endsBefore h
  | cons c text => exact htext

/-! The first piece of a text. -/

namespace Piece

lemma dropWhile_append {p : Char → Bool} {taken rest : List Char} (htaken : ∀ c ∈ taken, p c = true)
    (hrest : ∀ c ∈ rest.head?, p c = false) : (taken ++ rest).dropWhile p = rest := by
  rw [List.dropWhile_append_of_pos htaken]
  cases rest with
  | nil => rfl
  | cons c rest => exact List.dropWhile_cons_of_neg (by rw [hrest c rfl]; exact Bool.false_ne_true)

lemma split_blank {c : Char} {cs rest : List Char} (hblank : ∀ x ∈ c :: cs, isGap x = true)
    (hrest : ∀ x ∈ rest.head?, isGap x = false) : split (c :: cs ++ rest) = some (.blank, rest) := by
  rw [List.cons_append, split, if_pos (hblank c List.mem_cons_self),
    dropWhile_append (List.forall_mem_cons.mp hblank).2 hrest]

section

variable {c : Char} {cs rest : List Char} (hstart : Text.isNameStart c = true)
  (hparts : ∀ x ∈ cs, Text.isNamePart x = true)
  (hrest : ∀ x ∈ rest.head?, Text.isNamePart x = false)

include hstart hparts hrest

lemma split_word : split (c :: cs ++ rest) = some (.word, rest) := by
  rw [List.cons_append, split, isGap_eq_false_of_isNameStart hstart, if_neg Bool.false_ne_true, if_pos hstart,
    dropWhile_append hparts hrest]

lemma split_escaped : split ('@' :: c :: cs ++ rest) = some (.word, rest) := by
  have hat : isGap '@' = false ∧ Text.isNameStart '@' = false ∧ Text.isAsciiDigit '@' = false := by decide +kernel
  have hall : ∀ x ∈ c :: cs, Text.isNamePart x = true :=
    List.forall_mem_cons.mpr ⟨Text.isNamePart_of_isNameStart hstart, hparts⟩
  have hdrop := dropWhile_append hall hrest
  rw [List.cons_append] at hdrop
  simp [split, hat, hstart, hdrop]

end

lemma split_mark {c : Char} {rest : List Char} (hmark : c ∈ plainMarks)
    (hdouble : ∀ x ∈ rest.head?, [c, x] ∉ doubleMarks)
    (hdigit : ∀ x ∈ rest.head?, Text.isAsciiDigit x = false) :
    split (c :: rest) = some (.mark, rest) := by
  obtain ⟨hgap, hname, hnumber, hother, halone, hsingle⟩ := plainMarks_sound hmark
  simp only [List.mem_cons, List.not_mem_nil, or_false, not_or] at hother
  obtain ⟨hslash, hhash, hat, hquote, htext, hdollar⟩ := hother
  have hpoint : ¬ (c = '.' ∧ rest.head?.any Text.isAsciiDigit = true) := by
    rintro ⟨-, hany⟩
    cases rest with
    | nil => cases hany
    | cons x rest =>
      rw [List.head?_cons, Option.any_some, hdigit x rfl] at hany
      cases hany
  have hpair : c :: rest.take 1 ∉ doubleMarks := by
    cases rest with
    | nil => exact halone
    | cons x rest => exact hdouble x rfl
  simp [split, hgap, hname, hnumber, hslash, hhash, hat, hquote, htext, hdollar, hpoint, hpair, hsingle]

/-- Cutting a text gives these pieces. -/
def Cuts (text : List Char) (pieces : List Piece) : Prop :=
  ∀ fuel, text.length ≤ fuel → cut fuel text = some pieces

lemma Cuts.nil : Cuts [] [] := fun fuel _ => by cases fuel <;> rfl

lemma upTo_append (taken rest : List Char) : upTo (taken ++ rest) rest = taken := by
  unfold upTo
  rw [List.length_append, Nat.add_sub_cancel, List.take_left]

lemma Cuts.step {taken rest : List Char} {make : List Char → Piece} {pieces : List Piece} (hne : taken ≠ [])
    (hsplit : split (taken ++ rest) = some (make, rest)) (hrest : Cuts rest pieces) :
    Cuts (taken ++ rest) (make taken :: pieces) := by
  intro fuel hfuel
  obtain ⟨c, cs, rfl⟩ := List.exists_cons_of_ne_nil hne
  rw [List.length_append, List.length_cons] at hfuel
  obtain ⟨fuel, rfl⟩ : ∃ less, fuel = less + 1 := ⟨fuel - 1, by omega⟩
  have hupTo := upTo_append (c :: cs) rest
  rw [List.cons_append] at hsplit hupTo ⊢
  rw [cut, hsplit]
  · simp only [Option.bind_eq_bind, Option.bind_some, hrest fuel (by omega), hupTo]
    rfl
  · exact List.cons_ne_nil c _

/-- Whitespace before some pieces belongs to the gap of the first token in them. -/
lemma Cuts.gap {run rest : List Char} {pieces : List Piece} (h : Cuts rest pieces)
    (hrun : ∀ c ∈ run, c.isWhitespace = true) (hrest : ∀ c ∈ rest.head?, isGap c = false) :
    ∃ all, Cuts (run ++ rest) all ∧ ∀ position gap,
      gather position gap [] all = gather (position + run.length) (gap ++ run) [] pieces := by
  cases run with
  | nil => exact ⟨pieces, h, fun position gap => by rw [List.append_nil]; rfl⟩
  | cons c cs =>
    have hsplit := split_blank (fun x hx => isGap_of_isWhitespace (hrun x hx)) hrest
    exact ⟨.blank (c :: cs) :: pieces, .step (List.cons_ne_nil c cs) hsplit h, fun _ _ => rfl⟩

end Piece

/-! The tokens of a text. -/

/-- Tokens that are found in a text, which begins at `position`; `gap` was passed since the token
before. -/
inductive Laid : Nat → List Char → List Token → List Char → Prop
  | done {position : Nat} {gap : List Char} : Laid position gap [] []
  | blank {position : Nat} {gap text : List Char} {tokens : List Token} {c : Char} : c.isWhitespace = true →
      Laid (position + 1) (gap ++ [c]) tokens text → Laid position gap tokens (c :: text)
  | lexeme {position : Nat} {gap text : List Char} {tokens : List Token} {first : Lexeme} : first.isLexical = true →
      (∀ c ∈ text.head?, first.endsBefore c = true) → Laid (position + first.text.length) [] tokens text →
        Laid position gap (⟨first.kind, first.text, position, String.ofList gap, []⟩ :: tokens) (first.text.toList ++ text)

lemma Lexeme.split_of_isLexical {lexeme : Lexeme} {rest : List Char} (h : lexeme.isLexical = true)
    (hrest : ∀ c ∈ rest.head?, lexeme.endsBefore c = true) :
    lexeme.text.toList ≠ [] ∧ ∃ make, Piece.split (lexeme.text.toList ++ rest) = some (make, rest) ∧
      (lexeme.kind = .word ∧ make = .word ∨ lexeme.kind = .mark ∧ make = .mark) := by
  have hword : lexeme.kind = .word → ∀ x ∈ rest.head?, Text.isNamePart x = false := by
    intro hkind x hx
    have hends := hrest x hx
    rwa [endsBefore, hkind, Bool.not_eq_true'] at hends
  unfold isLexical at h
  split at h
  · rename_i c cs hkind htext
    simp only [Bool.and_eq_true, List.all_eq_true] at h
    rw [htext]
    exact ⟨List.cons_ne_nil _ _, .word, Piece.split_escaped h.1 h.2 (hword hkind), .inl ⟨hkind, rfl⟩⟩
  · rename_i c cs _ hkind htext
    simp only [Bool.and_eq_true, List.all_eq_true] at h
    rw [htext]
    exact ⟨List.cons_ne_nil c cs, .word, Piece.split_word h.1 h.2 (hword hkind), .inl ⟨hkind, rfl⟩⟩
  · rename_i c hkind htext
    have hends : ∀ x ∈ rest.head?, [c, x] ∉ Piece.doubleMarks ∧ Text.isAsciiDigit x = false := by
      intro x hx
      have hends := hrest x hx
      rwa [endsBefore, hkind, htext, Bool.and_eq_true, Bool.not_eq_true', Bool.not_eq_true', List.contains_eq_mem,
        decide_eq_false_iff_not] at hends
    rw [htext]
    refine ⟨List.cons_ne_nil c [], .mark, ?_, .inr ⟨hkind, rfl⟩⟩
    exact Piece.split_mark (List.contains_iff_mem.mp h) (fun x hx => (hends x hx).1) fun x hx => (hends x hx).2
  · cases h

/-- The token that a lexeme becomes stands before those behind it. -/
lemma Plain.cons {token : Token} {tokens : List Token} (hplain : Plain tokens)
    (hstart : ∀ other ∈ tokens, token.stop ≤ other.start) (hfilled : token.text ≠ "") (hnotes : token.notes = [])
    (hblank : ∀ c ∈ token.gap.toList, Text.isBlank c = true) : Plain (token :: tokens) where
  apart := List.pairwise_cons.mpr ⟨hstart, hplain.apart⟩
  filled := List.forall_mem_cons.mpr ⟨hfilled, hplain.filled⟩
  unnoted := List.forall_mem_cons.mpr ⟨hnotes, hplain.unnoted⟩
  blank := List.forall_mem_cons.mpr ⟨hblank, hplain.blank⟩

/-- A lexeme begins with no gap. -/
lemma Lexeme.head_of_isLexical {lexeme : Lexeme} (h : lexeme.isLexical = true) (rest : List Char) :
    ∀ c ∈ (lexeme.text.toList ++ rest).head?, Piece.isGap c = false := by
  intro c hc
  unfold isLexical at h
  split at h
  · rename_i htext
    rw [htext] at hc
    obtain rfl := Option.mem_some.mp hc
    decide
  · rename_i first cs _ _ htext
    rw [htext] at hc
    obtain rfl := Option.mem_some.mp hc
    rw [Bool.and_eq_true] at h
    exact isGap_eq_false_of_isNameStart h.1
  · rename_i first _ htext
    rw [htext] at hc
    obtain rfl := Option.mem_some.mp hc
    exact (plainMarks_sound (List.contains_iff_mem.mp h)).1
  · cases h

namespace Laid

variable {position : Nat} {gap : List Char} {tokens : List Token}

lemma plain (h : Laid position gap tokens text) (hgap : ∀ c ∈ gap, Text.isBlank c = true) :
    Plain tokens ∧ ∀ token ∈ tokens, position ≤ token.start := by
  induction h with
  | done => exact ⟨⟨.nil, nofun, nofun, nofun⟩, nofun⟩
  | blank hc _ ih =>
    obtain ⟨hplain, hstart⟩ := ih (List.forall_mem_append.mpr ⟨hgap, List.forall_mem_singleton.mpr
      (Text.isBlank_of_isWhitespace hc)⟩)
    exact ⟨hplain, fun token htoken => Nat.le_of_succ_le (hstart token htoken)⟩
  | lexeme hfirst hends _ ih =>
    obtain ⟨hplain, hstart⟩ := ih nofun
    refine ⟨hplain.cons hstart (fun hempty => ?_) rfl (by simpa using hgap), List.forall_mem_cons.mpr ⟨Nat.le_refl _,
      fun token htoken => Nat.le_trans (Nat.le_add_right ..) (hstart token htoken)⟩⟩
    exact (Lexeme.split_of_isLexical hfirst hends).1 (String.toList_eq_nil_iff.mpr hempty)

/-- The whitespace in front makes one gap, so it is kept apart in the induction. -/
lemma cuts (h : Laid position gap tokens text) : ∃ run rest pieces, text = run ++ rest ∧
    (∀ c ∈ run, c.isWhitespace = true) ∧ (∀ c ∈ rest.head?, Piece.isGap c = false) ∧ Piece.Cuts rest pieces ∧
      gather (position + run.length) (gap ++ run) [] pieces = tokens := by
  induction h with
  | done => exact ⟨[], [], [], rfl, nofun, nofun, .nil, rfl⟩
  | @blank position _ _ _ c hc _ ih =>
    obtain ⟨run, rest, pieces, rfl, hrun, hrest, hcuts, rfl⟩ := ih
    refine ⟨c :: run, rest, pieces, rfl, List.forall_mem_cons.mpr ⟨hc, hrun⟩, hrest, hcuts, ?_⟩
    rw [List.append_assoc, List.length_cons, Nat.add_right_comm, ← Nat.add_assoc, List.singleton_append]
  | @lexeme position gap _ _ first hfirst hends _ ih =>
    obtain ⟨run, rest, pieces, rfl, hrun, hrest, hcuts, rfl⟩ := ih
    obtain ⟨after, hafter, hgather⟩ := hcuts.gap hrun hrest
    obtain ⟨hne, make, hsplit, hmake⟩ := Lexeme.split_of_isLexical hfirst hends
    refine ⟨[], _, make first.text.toList :: after, rfl, nofun, Lexeme.head_of_isLexical hfirst _, .step hne hsplit hafter, ?_⟩
    -- Words and marks are gathered alike, but for the class of the token.
    rw [← String.length_toList, ← hgather]
    rcases hmake with ⟨hkind, rfl⟩ | ⟨hkind, rfl⟩ <;> rw [gather, hkind] <;>
      simp only [Piece.text, String.ofList_toList, List.append_nil, List.length_nil, Nat.add_zero]

lemma tokenize {text : String} (h : Laid 0 [] tokens text.toList) : tokenize text = some tokens ∧ Plain tokens := by
  obtain ⟨run, rest, pieces, htext, hrun, hrest, hcuts, rfl⟩ := h.cuts
  obtain ⟨after, hafter, hgather⟩ := hcuts.gap hrun hrest
  rw [Source.tokenize, Piece.ofText, htext, hafter _ (Nat.le_refl _), Option.map_some, hgather]
  exact ⟨rfl, (h.plain nofun).1⟩

end Laid

/-- What is spelled in a text is laid out there, whatever stands behind it. -/
lemma Spells.lay (h : Spells spelling text) (hlexical : Lexical spelling) (position : Nat) (gap : List Char) :
    ∃ tokens last, tokens.map Token.lexeme = spelling ∧
      gap ++ text = tokens.flatMap (fun token => token.gap.toList ++ token.text.toList) ++ last ∧
      ∀ {more rest}, Closed rest →
        Laid (position + text.length) last more rest → Laid position gap (tokens ++ more) (text ++ rest) := by
  induction h generalizing position gap with
  | done => exact ⟨[], gap, rfl, by simp, fun _ hmore => hmore⟩
  | @blank _ text c hc _ ih =>
    obtain ⟨tokens, last, hlexemes, hflat, hlay⟩ := ih hlexical (position + 1) (gap ++ [c])
    refine ⟨tokens, last, hlexemes, by simpa using hflat, fun hrest hmore => .blank hc (hlay hrest ?_)⟩
    rwa [Nat.add_right_comm, Nat.add_assoc]
  | @lexeme spelling text first hends _ ih =>
    obtain ⟨hfirst, hspelling⟩ := lexical_cons.mp hlexical
    obtain ⟨tokens, last, hlexemes, hflat, hlay⟩ := ih hspelling (position + first.text.length) []
    refine ⟨⟨first.kind, first.text, position, String.ofList gap, []⟩ :: tokens, last, by rw [List.map_cons, hlexemes]; rfl,
      ?_, fun {more rest} hrest hmore => ?_⟩
    · rw [List.nil_append] at hflat
      rw [List.flatMap_cons, hflat]
      simp
    · rw [List.append_assoc]
      refine .lexeme hfirst (hrest.endsBefore_append hfirst hends) (hlay hrest ?_)
      rwa [List.length_append, String.length_toList, ← Nat.add_assoc] at hmore

/-- The tokens of a text are the lexemes that are laid out in it. -/
lemma Spells.tokenize {spelling : List Lexeme} {text : String} (h : Spells spelling text.toList)
    (hlexical : Lexical spelling) :
    ∃ tokens, tokenize text = some tokens ∧ tokens.map Token.lexeme = spelling ∧ Plain tokens := by
  obtain ⟨tokens, last, hlexemes, -, hlay⟩ := h.lay hlexical 0 []
  have hlaid : Laid 0 [] tokens text.toList := by simpa using @hlay [] [] nofun .done
  exact ⟨tokens, hlaid.tokenize.1, hlexemes, hlaid.tokenize.2⟩

lemma Document.read_of_takes {after : Option TypeTree → Option TypeTree} {Q : List Token → List Item → Prop}
    {tokens : List Token} {text : String} (path : String) (htokens : Source.tokenize text = some tokens) (hplain : Plain tokens)
    (h : Reader.TakesTo after (Reader.items (grammar (tokens.length + 1)) (tokens.length + 1)) (tokens.map Token.lexeme)
      AtEnd Q) : ∃ found, (Document.read path text).items = some found ∧
        (Document.read path text).declared = after none ∧ Q tokens found := by
  rw [← List.append_nil tokens] at hplain
  obtain ⟨found, hrun, hfound⟩ := h tokens [] 0 none rfl hplain rfl
  rw [List.append_nil] at hrun
  refine ⟨found, ?_, ?_, hfound⟩ <;> simp [Document.read, htokens, hrun]

end TypeAtlas.Source

namespace TypeAtlas

variable {generics : List PlanParam} {name : String}

open Source Source.Reader

/-! The lexemes of a plan. -/

variable {decls : List PlanDecl} {scope : PlanScope}

lemma PlanParam.lexical_names (h : ∀ param ∈ generics, isPlainName param.name = true) :
    Lexical (PlanParam.names generics) := by
  refine lexical_angled fun spelling hspelling => ?_
  obtain ⟨param, hparam, rfl⟩ := List.mem_map.mp hspelling
  exact lexical_word (h param hparam)

lemma PlanParam.lexical_spelling (hscope : scope.Named decls)
    (h : PlanParam.fitAll scope generics) {param : PlanParam} (hparam : param ∈ generics) :
    Lexical (param.spelling decls scope) := by
  obtain ⟨hname, hconstraints⟩ := h.2.2 param hparam
  refine lexical_cons.mpr ⟨by decide, lexical_cons.mpr ⟨isLexical_word hname, lexical_cons.mpr ⟨by decide, ?_⟩⟩⟩
  refine lexical_commas fun type htype => (PlanType.readsAs hscope (PlanType.inScope_of_fits ?_)).lexical
  exact PlanType.fits_of_fitsBase (hconstraints type htype)

lemma lexical_property {type : List Lexeme} (htype : Lexical type) (hname : isPlainName name = true)
    (getter setter : Bool) : Lexical (propertySpelling type name getter setter) := by
  have hwords : Lexical ((accessorWords getter setter).flatMap fun word => [.word word, .mark ";"]) := by
    cases getter <;> cases setter <;> unfold Lexical <;> decide
  simp only [propertySpelling, lexical_append, lexical_cons]
  exact ⟨htype, ⟨isLexical_word hname, lexical_nil⟩, lexical_nil, ⟨by decide, lexical_nil⟩, hwords, by decide, lexical_nil⟩

lemma lexical_method {type params clauses : List Lexeme} (htype : Lexical type) (hname : isPlainName name = true)
    (hnames : ∀ param ∈ generics, isPlainName param.name = true) (hparams : Lexical params)
    (hclauses : Lexical clauses) : Lexical (methodSpelling type name generics params clauses) := by
  simp only [methodSpelling, lexical_append, lexical_cons]
  exact ⟨htype, ⟨isLexical_word hname, lexical_nil⟩, PlanParam.lexical_names hnames, ⟨⟨by decide, lexical_nil⟩, hparams,
    by decide, lexical_nil⟩, hclauses, by decide, lexical_nil⟩

lemma PlanMember.lexical_spelling (hscope : scope.Named decls) {member : PlanMember} (hfits : member.Fits scope) :
    Lexical (member.spelling decls scope) := by
  cases member with
  | property name type getter setter =>
    obtain ⟨hname, htype, -⟩ := hfits
    rw [PlanMember.spelling_property]
    exact lexical_property (PlanType.readsAs hscope (PlanType.inScope_of_fits htype)).lexical hname getter setter
  | method name generics returns params =>
    obtain ⟨hname, hgenerics, hreturns, -, hparams⟩ := hfits
    have hinside := hscope.inMethod fun param hparam => (hgenerics.2.2 param hparam).1
    have hreturn := (PlanType.readsAs hinside (PlanType.inScope_of_fitsReturn hreturns)).lexical
    have hlist : Lexical (commas (paramSpelling decls (scope.inMethod generics)) params) := by
      refine lexical_commas fun param hparam => ?_
      obtain ⟨hparamName, htype⟩ := hparams param hparam
      have hspelling := (PlanType.readsAs hinside (PlanType.inScope_of_fits htype)).lexical
      exact lexical_append.mpr ⟨hspelling, lexical_word hparamName⟩
    have hclauses : Lexical ((PlanParam.constrained generics).flatMap
        (PlanParam.spelling decls (scope.inMethod generics))) :=
      lexical_flatMap fun param hparam =>
        PlanParam.lexical_spelling hinside hgenerics (List.mem_of_mem_filter hparam)
    rw [PlanMember.spelling_method]
    exact lexical_method hreturn hname (fun param hparam => (hgenerics.2.2 param hparam).1) hlist hclauses

section

variable {d : PlanDecl} (hscope : (d.scope (decls.map PlanDecl.arity)).Named decls)
  (hfits : d.Fits (decls.map PlanDecl.arity))

include hscope hfits

lemma PlanDecl.lexical_header : Lexical (d.headerSpelling decls) := by
  have hbases : Lexical (commas (PlanType.spelling decls (d.scope (decls.map PlanDecl.arity))) d.bases) := by
    refine lexical_commas fun type htype => (PlanType.readsAs hscope (PlanType.inScope_of_fits ?_)).lexical
    exact PlanType.fits_of_fitsBase (hfits.bases type htype)
  refine lexical_flatMap fun part hpart => ?_
  rcases List.mem_append.mp hpart with hpart | hpart
  · obtain ⟨-, rfl⟩ := mem_nameParts hpart
    exact PlanParam.lexical_names fun param hparam => (hfits.generics.2.2 param hparam).1
  · rcases mem_tailParts hpart with ⟨-, rfl⟩ | ⟨param, hparam, -, rfl⟩
    · exact lexical_cons.mpr ⟨by decide, hbases⟩
    · exact PlanParam.lexical_spelling hscope hfits.generics hparam

lemma PlanDecl.lexical_spelling : Lexical (d.spelling decls) := by
  have hkind : (Lexeme.word d.kind.word).isLexical = true := by cases d.kind <;> decide
  have hheader := PlanDecl.lexical_header hscope hfits
  have hmembers := lexical_flatMap fun member hmember =>
    PlanMember.lexical_spelling hscope (hfits.members member hmember)
  rw [PlanDecl.spelling]
  simp only [lexical_append, lexical_cons, lexical_nil]
  exact ⟨⟨⟨hkind, isLexical_word hfits.name, hheader⟩, by decide, hmembers⟩, by decide, trivial⟩

end

lemma Plan.lexical_spelling (plan : Plan) : Lexical plan.spelling := by
  refine lexical_flatMap fun d hd => ?_
  have hfits := plan.fits d hd
  have hdecl := PlanDecl.lexical_spelling (plan.named hd) hfits
  rw [PlanDecl.placedSpelling]
  simp only [lexical_append, lexical_cons, lexical_nil]
  have hpath := lexical_path fun part hpart => isIdentifier_of_isPlainName (hfits.spaces.2.2 part hpart)
  exact ⟨⟨⟨by decide, hpath⟩, by decide, hdecl⟩, by decide, trivial⟩

/-- Whatever text a plan is laid out in, its declarations are read from it one by one. -/
lemma Plan.read (plan : Plan) {text : String} (htext : Spells plan.spelling text.toList) (path : String) :
    ∃ found, (Document.read path text).items = some found ∧
      List.Forall₂ (PlanDecl.PlacedAs plan.decls) plan.decls found := by
  obtain ⟨tokens, htokens, hlexemes, hplain⟩ := htext.tokenize plan.lexical_spelling
  have hlength : plan.spelling.length ≤ tokens.length + 1 := by
    rw [← hlexemes, List.length_map]
    omega
  obtain ⟨found, hitems, -, hread⟩ := Document.read_of_takes path htokens hplain (hlexemes ▸ items_take plan hlength)
  exact ⟨found, hitems, hread⟩

end TypeAtlas
