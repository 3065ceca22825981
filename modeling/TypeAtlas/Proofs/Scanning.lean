import Mathlib.Tactic.Lemma
import TypeAtlas.Source.Token

/-!
What the scanners of source text leave. Each of them returns a suffix of the text it was given,
so the pieces of a text, joined again, are the text (`Piece.flatMap_ofText`), and the tokens with
the gaps before them are a beginning of it (`prefix_of_tokenize`).
-/

namespace TypeAtlas.Source

variable {c : Char} {tokens : List Token}

namespace Literal

attribute [local grind →] List.IsSuffix.trans
attribute [local grind .] List.suffix_refl
local grind_pattern List.drop_suffix => List.drop i l
local grind_pattern List.dropWhile_suffix => List.dropWhile p l

variable {cs rest : List Char}

@[local grind ←]
lemma suffix_of_cons (h : rest <:+ cs) : rest <:+ c :: cs := h.trans (List.suffix_cons c cs)

/-- A scanner that goes on where another one stopped. -/
lemma suffix_of_bind {first : Option (List Char)} {next : List Char → Option (List Char)}
    (h : (first >>= next) = some rest) (hfirst : ∀ {mid}, first = some mid → mid <:+ cs)
    (hnext : ∀ {mid}, next mid = some rest → rest <:+ mid) : rest <:+ cs := by
  obtain ⟨mid, hmid, hrest⟩ := Option.bind_eq_some_iff.mp h
  exact (hnext hrest).trans (hfirst hmid)

lemma dropHex_suffix {n : Nat} (h : dropHex n cs = some rest) : rest <:+ cs := by
  fun_induction dropHex n cs <;> grind

lemma dropHexUpTo_suffix (n : Nat) (cs : List Char) : dropHexUpTo n cs <:+ cs := by
  fun_induction dropHexUpTo n cs <;> grind

lemma escape_suffix (h : escape cs = some rest) : rest <:+ cs := by
  unfold escape at h
  split at h
  · obtain ⟨digits, hdigits, rfl⟩ := Option.map_eq_some_iff.mp h
    exact suffix_of_cons ((dropHexUpTo_suffix 3 digits).trans (dropHex_suffix hdigits))
  · exact suffix_of_cons (dropHex_suffix h)
  · exact suffix_of_cons (dropHex_suffix h)
  · grind
  · cases h

lemma character_suffix (h : character cs = some rest) : rest <:+ cs := by
  unfold character at h
  split at h
  · refine suffix_of_cons (suffix_of_bind h escape_suffix fun hquote => ?_)
    split at hquote <;> grind
  · grind
  · cases h

lemma plain_suffix (h : plain cs = some rest) : rest <:+ cs := by
  fun_induction plain cs <;> grind

lemma verbatim_suffix (h : verbatim cs = some rest) : rest <:+ cs := by
  fun_induction verbatim cs <;> grind

lemma raw_suffix {quotes run : Nat} (h : raw quotes run cs = some rest) : rest <:+ cs := by
  fun_induction raw quotes run cs <;> grind

lemma comment_suffix (h : comment cs = some rest) : rest <:+ cs := by
  fun_induction comment cs <;> grind

lemma dropRun_suffix {n : Nat} (h : dropRun c n cs = some rest) : rest <:+ cs := by
  unfold dropRun at h
  grind

lemma dropSuffix_suffix (cs : List Char) : dropSuffix cs <:+ cs := by
  fun_cases dropSuffix cs <;> grind

lemma dropDigits_suffix (isDigit : Char → Bool) (cs : List Char) : dropDigits isDigit cs <:+ cs :=
  List.drop_suffix _ _

lemma dropWholeSuffix_suffix (cs : List Char) : dropWholeSuffix cs <:+ cs := by
  fun_cases dropWholeSuffix cs <;> grind

local grind_pattern dropDigits_suffix => dropDigits isDigit cs
local grind_pattern dropWholeSuffix_suffix => dropWholeSuffix cs

lemma numberTail_suffix (cs : List Char) : numberTail cs <:+ cs := by
  unfold numberTail
  extract_lets fraction exponent
  have hfraction : fraction <:+ cs := by
    unfold fraction
    split
    · split <;> grind
    · exact List.suffix_refl cs
  have hexponent : exponent <:+ fraction := by
    unfold exponent
    clear_value fraction
    split
    · split
      · grind
      · split <;> grind
    · split <;> grind
    · exact List.suffix_refl fraction
  refine List.IsSuffix.trans ?_ (hexponent.trans hfraction)
  clear_value exponent
  split
  · split <;> grind
  · exact List.suffix_refl []

lemma basedNumber?_suffix (h : basedNumber? cs = some rest) : rest <:+ cs := by
  unfold basedNumber? at h
  split at h
  · cases h
  · extract_lets isDigit digits at h
    split at h
    · cases h
      exact suffix_of_cons ((dropWholeSuffix_suffix _).trans (dropDigits_suffix _ _))
    · cases h

lemma number_suffix (cs : List Char) : number cs <:+ cs := by
  unfold number
  split
  · rename_i cs
    cases hbased : basedNumber? cs with
    | none => exact (numberTail_suffix _).trans (dropDigits_suffix _ _)
    | some rest => exact suffix_of_cons (basedNumber?_suffix hbased)
  · exact numberTail_suffix _
  · exact (numberTail_suffix _).trans (dropDigits_suffix _ _)

/-- The scanners of strings, which call one another, return suffixes with this much fuel. -/
structure StringSuffixes (fuel : Nat) : Prop where
  string : ∀ {cs rest}, string fuel cs = some rest → rest <:+ cs
  interpolated : ∀ {style cs rest}, interpolated fuel style cs = some rest → rest <:+ cs
  hole : ∀ {style cs rest}, hole fuel style cs = some rest → rest <:+ cs
  holeBody : ∀ {style depth cs rest}, holeBody fuel style depth cs = some rest → rest <:+ cs

namespace StringSuffixes

attribute [local grind →] StringSuffixes.string StringSuffixes.interpolated StringSuffixes.hole
  StringSuffixes.holeBody plain_suffix verbatim_suffix raw_suffix

variable {fuel : Nat} {style : Style}

lemma string_succ (ih : StringSuffixes fuel) (h : Literal.string (fuel + 1) cs = some rest) : rest <:+ cs := by
  unfold Literal.string at h
  split at h
  · grind
  · grind
  · grind
  · extract_lets quotes at h
    split at h
    · grind
    · split at h <;> grind
  · extract_lets braces behind quotes at h
    split at h
    · grind
    · split at h <;> grind
  · cases h

lemma interpolated_succ (ih : StringSuffixes fuel) (h : Literal.interpolated (fuel + 1) style cs = some rest) :
    rest <:+ cs := by
  cases cs with
  | nil => cases h
  | cons c cs =>
    rw [Literal.interpolated.eq_def] at h
    dsimp only at h
    split at h
    · split at h
      · grind
      · split at h <;> grind
    · split at h <;> grind
    · split at h <;> grind

lemma hole_succ (ih : StringSuffixes fuel) (h : Literal.hole (fuel + 1) style cs = some rest) : rest <:+ cs := by
  unfold Literal.hole at h
  have hspace := List.dropWhile_suffix isSpace (l := cs)
  split at h
  · cases h
  · split at h <;> grind

lemma holeBody_succ {depth : Nat} (ih : StringSuffixes fuel)
    (h : Literal.holeBody (fuel + 1) style depth cs = some rest) : rest <:+ cs := by
  cases cs with
  | nil => cases h
  | cons c cs =>
    rw [Literal.holeBody.eq_def] at h
    dsimp only at h
    -- a literal or a comment is passed as a whole, then brackets are counted
    split at h
    · exact suffix_of_bind h ih.string ih.holeBody
    split at h
    · exact suffix_of_cons (suffix_of_bind h character_suffix ih.holeBody)
    split at h
    · refine suffix_of_cons (suffix_of_bind h (fun hcomment => ?_) ih.holeBody)
      exact (comment_suffix hcomment).trans (List.drop_suffix _ _)
    split at h
    · exact suffix_of_cons (ih.holeBody h)
    split at h
    · split at h
      · cases h
      · exact suffix_of_cons (ih.holeBody h)
    split at h
    · split at h
      · exact suffix_of_bind h dropRun_suffix ih.interpolated
      · exact suffix_of_cons (ih.holeBody h)
    split at h
    · split at h
      · grind
      · refine suffix_of_cons (suffix_of_bind h (fun hrun => ?_) ih.interpolated)
        exact (dropRun_suffix hrun).trans (List.dropWhile_suffix _)
    · exact suffix_of_cons (ih.holeBody h)

lemma all (fuel : Nat) : StringSuffixes fuel := by
  induction fuel with
  | zero =>
    constructor <;> intros
    all_goals rename_i h; simp [Literal.string, Literal.interpolated, Literal.hole, Literal.holeBody] at h
  | succ fuel ih => exact ⟨ih.string_succ, ih.interpolated_succ, ih.hole_succ, ih.holeBody_succ⟩

end StringSuffixes

end Literal

namespace Piece

open Literal

variable {cs rest : List Char} {pieces : List Piece}

lemma directiveWord_suffix (cs : List Char) : (directiveWord cs).2 <:+ cs :=
  (List.dropWhile_suffix _).trans (List.dropWhile_suffix _)

lemma skipRegion_suffix {fuel depth : Nat} (h : skipRegion fuel depth cs = some rest) : rest <:+ cs := by
  induction fuel generalizing depth cs with
  | zero => cases h
  | succ fuel ih =>
    cases cs with
    | nil => cases h
    | cons c cs =>
      rw [skipRegion.eq_def] at h
      dsimp only at h
      split at h
      · refine suffix_of_cons (List.IsSuffix.trans ?_ (directiveWord_suffix cs))
        split at h
        · exact ih h
        split at h
        · split at h
          · cases h
            exact List.suffix_refl _
          · exact ih h
        · exact ih h
      split at h
      · exact suffix_of_cons ((ih h).trans (List.dropWhile_suffix _))
      split at h
      · split at h
        · rename_i hcomment
          exact suffix_of_cons ((ih h).trans ((comment_suffix hcomment).trans (List.drop_suffix _ _)))
        · cases h
      split at h
      · split at h
        · rename_i hstring
          exact (ih h).trans ((StringSuffixes.all _).string hstring)
        · exact suffix_of_cons (ih h)
      · exact suffix_of_cons (ih h)

lemma directive_suffix {node : String} (h : directive cs = some (node, rest)) : rest <:+ cs := by
  unfold directive at h
  dsimp only at h
  refine List.IsSuffix.trans ?_ (directiveWord_suffix cs)
  split at h
  · obtain ⟨region, hregion, heq⟩ := Option.map_eq_some_iff.mp h
    cases heq
    exact skipRegion_suffix hregion
  split at h
  · split at h
    · cases h
    · rename_i behind hline
      cases h
      exact (List.suffix_cons _ _).trans (hline ▸ List.dropWhile_suffix _)
  · cases h

/-- An answer to what the first piece of a text is: the piece holds what it is made of, and behind it
a suffix is left, which is not the whole text behind a word. -/
def CutsFront (cs : List Char) (answer : Option ((List Char → Piece) × List Char)) : Prop :=
  ∀ piece rest, answer = some (piece, rest) →
    (∀ text, (piece text).text = text) ∧ rest <:+ cs ∧ ∀ text, piece text = .word text → rest ≠ cs

namespace CutsFront

lemma none : CutsFront cs none := fun _ _ h => by cases h

lemma some {piece : List Char → Piece} (hpiece : ∀ text, (piece text).text = text) (h : rest <:+ cs)
    (hword : ∀ text, piece text = .word text → rest ≠ cs) : CutsFront cs (some (piece, rest)) := by
  rintro _ _ ⟨⟩
  exact ⟨hpiece, h, hword⟩

lemma ite {p : Prop} [Decidable p] {first second : Option ((List Char → Piece) × List Char)}
    (hfirst : CutsFront cs first) (hsecond : CutsFront cs second) : CutsFront cs (if p then first else second) := by
  split
  · exact hfirst
  · exact hsecond

lemma map {α : Type} {scanned : Option α} {f : α → (List Char → Piece) × List Char}
    (h : ∀ x, scanned = .some x → (∀ text, ((f x).1 text).text = text) ∧ (f x).2 <:+ cs ∧
      ∀ text, (f x).1 text = .word text → (f x).2 ≠ cs) :
    CutsFront cs (scanned.map f) := by
  intro piece rest heq
  obtain ⟨x, hx, hf⟩ := Option.map_eq_some_iff.mp heq
  have hx := h x hx
  rw [hf] at hx
  exact hx

end CutsFront

lemma cutsFront_split (cs : List Char) : CutsFront cs (Piece.split cs) := by
  cases cs with
  | nil => exact .none
  | cons c cs =>
    have hcomment : ∀ rest, comment (cs.drop 1) = some rest → rest <:+ c :: cs := fun rest h =>
      suffix_of_cons ((comment_suffix h).trans (List.drop_suffix 1 cs))
    have hstring : ∀ fuel rest, string fuel (c :: cs) = some rest → dropSuffix rest <:+ c :: cs :=
      fun fuel rest h => (dropSuffix_suffix rest).trans ((StringSuffixes.all fuel).string h)
    have hpassed : ∀ p : Char → Bool, cs.dropWhile p <:+ c :: cs := fun p =>
      suffix_of_cons (List.dropWhile_suffix p)
    have hword (text : List Char) : Piece.word text = .word text → cs.dropWhile Text.isNamePart ≠ c :: cs := by
      intro _ hall
      have hlength := (List.dropWhile_suffix Text.isNamePart (l := cs)).length_le
      rw [hall, List.length_cons] at hlength
      omega
    unfold Piece.split
    refine .ite (.some (fun _ => rfl) (hpassed _) nofun) ?_
    refine .ite (.some (fun _ => rfl) (hpassed _) hword) ?_
    refine .ite (.some (fun _ => rfl) (number_suffix _) nofun) ?_
    refine .ite (.some (fun _ => rfl) (hpassed _) nofun) ?_
    refine .ite (.map fun rest h => ⟨fun _ => rfl, hcomment rest h, nofun⟩) ?_
    refine .ite (.map fun found h => ⟨fun _ => rfl, suffix_of_cons (directive_suffix h), nofun⟩) ?_
    refine .ite (.some (fun _ => rfl) (hpassed _) hword) ?_
    refine .ite (.some (fun _ => rfl) (number_suffix _) nofun) ?_
    refine .ite (.map fun rest h => ⟨fun _ => rfl, suffix_of_cons (character_suffix h), nofun⟩) ?_
    refine .ite (.map fun rest h => ⟨fun _ => rfl, hstring _ rest h, nofun⟩) ?_
    refine .ite (.some (fun _ => rfl) (suffix_of_cons (List.drop_suffix 1 cs)) nofun) ?_
    exact .ite (.some (fun _ => rfl) (List.suffix_cons c cs) nofun) .none

lemma upTo_append_of_suffix (h : rest <:+ cs) : upTo cs rest ++ rest = cs := by
  obtain ⟨front, rfl⟩ := h
  simp [upTo]

/-- What holds of no pieces, and with a piece in front of those of what it leaves, holds of all that is cut. -/
lemma cut_induction {motive : List Char → List Piece → Prop} (nil : motive [] [])
    (cons : ∀ cs piece rest pieces, split cs = some (piece, rest) → motive rest pieces →
      motive cs (piece (upTo cs rest) :: pieces)) {fuel : Nat} (h : cut fuel cs = some pieces) : motive cs pieces := by
  induction fuel generalizing cs pieces with
  | zero =>
    cases cs with
    | nil =>
      cases h
      exact nil
    | cons c cs => cases h
  | succ fuel ih =>
    cases cs with
    | nil =>
      cases h
      exact nil
    | cons c cs =>
      obtain ⟨⟨piece, rest⟩, hsplit, h⟩ := Option.bind_eq_some_iff.mp h
      obtain ⟨behind, hbehind, h⟩ := Option.bind_eq_some_iff.mp h
      cases h
      exact cons _ _ _ _ hsplit (ih hbehind)

/-- The pieces of a text, joined again, are the text. -/
lemma flatMap_ofText (h : ofText cs = some pieces) : pieces.flatMap Piece.text = cs := by
  refine cut_induction (motive := fun cs pieces => pieces.flatMap Piece.text = cs) rfl
    (fun cs piece rest pieces hsplit ih => ?_) h
  obtain ⟨htext, hsuffix, -⟩ := cutsFront_split cs piece rest hsplit
  rw [List.flatMap_cons, htext, ih, upTo_append_of_suffix hsuffix]

lemma ne_nil_of_mem_ofText {text : List Char} (h : ofText cs = some pieces) : .word text ∈ pieces → text ≠ [] := by
  refine cut_induction (motive := fun _ pieces => .word text ∈ pieces → text ≠ []) nofun
    (fun cs piece rest pieces hsplit ih hmem => ?_) h
  obtain ⟨htext, hsuffix, hword⟩ := cutsFront_split cs piece rest hsplit
  rcases List.mem_cons.mp hmem with hfirst | hmem
  · obtain rfl : text = upTo cs rest := by rw [← htext (upTo cs rest), ← hfirst, Piece.text]
    intro hnil
    have hleft := upTo_append_of_suffix hsuffix
    rw [hnil, List.nil_append] at hleft
    exact hword _ hfirst.symm hleft
  · exact ih hmem

end Piece

/-- The characters a token takes up, those of the gap before it first. -/
def Token.chars (token : Token) : List Char := token.gap.toList ++ token.text.toList

lemma toList_textOf (first : Token) (rest : List Token) :
    (textOf (first :: rest)).toList = first.text.toList ++ rest.flatMap Token.chars := by
  have hrest : (String.join (rest.map fun token => token.gap ++ token.text)).toList = rest.flatMap Token.chars := by
    induction rest with
    | nil => rfl
    | cons token rest ih =>
      rw [List.map_cons, String.join_cons, String.toList_append, String.toList_append, ih, List.flatMap_cons,
        Token.chars]
  rw [textOf, String.toList_append, hrest]

/-- The text of tokens holds no characters but theirs. -/
lemma mem_chars_of_mem_textOf (h : c ∈ (textOf tokens).toList) :
    ∃ token ∈ tokens, c ∈ token.chars := by
  cases tokens with
  | nil => cases h
  | cons first rest =>
    rw [toList_textOf, List.mem_append] at h
    rcases h with h | h
    · exact ⟨first, List.mem_cons_self, List.mem_append_right _ h⟩
    · obtain ⟨token, htoken, hc⟩ := List.mem_flatMap.mp h
      exact ⟨token, List.mem_cons_of_mem first htoken, hc⟩

/-- Tokens take up the text of the pieces they are gathered from, up to the last token. -/
lemma prefix_of_gather (position : Nat) (gap : List Char) (notes : List Note) (pieces : List Piece) :
    (gather position gap notes pieces).flatMap Token.chars <+: gap ++ pieces.flatMap Piece.text := by
  induction pieces generalizing position gap notes with
  | nil => exact List.nil_prefix
  | cons piece pieces ih =>
    have htoken : ∀ (kind : TokenClass) (text : List Char) (next : Nat),
        ((⟨kind, String.ofList text, position, String.ofList gap, notes⟩ : Token) ::
          gather next [] [] pieces).flatMap Token.chars <+: gap ++ text ++ pieces.flatMap Piece.text := by
      intro kind text next
      rw [List.flatMap_cons, Token.chars, String.toList_ofList, String.toList_ofList]
      exact (List.prefix_append_right_inj _).mpr (ih next [] [])
    rw [List.flatMap_cons, ← List.append_assoc]
    cases piece with
    | blank text => exact ih _ _ _
    | note node text => exact ih _ _ _
    | word text => exact htoken .word text _
    | literal text => exact htoken .literal text _
    | mark text => exact htoken .mark text _

lemma prefix_of_tokenize {text : String} (h : tokenize text = some tokens) :
    tokens.flatMap Token.chars <+: text.toList := by
  obtain ⟨pieces, hpieces, rfl⟩ := Option.map_eq_some_iff.mp h
  rw [← Piece.flatMap_ofText hpieces]
  exact prefix_of_gather 0 [] [] pieces

end TypeAtlas.Source
