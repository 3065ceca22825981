import TypeAtlas.Proofs.ReferenceReading
import TypeAtlas.Proofs.WrittenShape

/-!
References as text. The text of a reference spells a type, and the tree that is read from it stands
for the reference again, although it nests the other way round: the qualifier is split off before
the last name, and each pair of brackets goes around everything in front of it. Main statement:
`TypeRef.parse_text`.
-/

namespace TypeAtlas

open Source Source.Reader

variable {parts : List String} {args : List TypeRef}
  {path : String} {spell : TypeRef → List Lexeme} {tree : TypeRef → TypeTree}

/-- References whose names are made of identifiers and whose arrays have a rank in each pair of
brackets. -/
inductive TypeRef.Writable : TypeRef → Prop
  | builtin {ranks : List Nat} (type : Builtin) : (∀ rank ∈ ranks, rank ≠ 0) →
      Writable (.builtin type (ArrayShape.ofRanks ranks))
  | named {parts : List String} {args : List TypeRef} {ranks : List Nat} : parts ≠ [] →
      (∀ part ∈ parts, isIdentifier part = true) → (∀ arg ∈ args, Writable arg) → (∀ rank ∈ ranks, rank ≠ 0) →
      Writable (.named (Text.joinWith "." parts) args (ArrayShape.ofRanks ranks))

/-! The texts of names, arguments and brackets. -/

lemma Source.Spells.mark_endsBefore {word mark : String} {spelling : List Lexeme} {text : List Char}
    (h : Spells (.word word :: spelling) text) (hword : (Lexeme.word word).isLexical = true)
    (hmark : mark ∈ [".", "<", "("]) : ∀ c ∈ text.head?, (Lexeme.mark mark).endsBefore c = true := by
  have hmarks : ∀ c, c ≠ '.' → Text.isAsciiDigit c = false → (Lexeme.mark mark).endsBefore c = true := by
    intro c hdot hdigit
    simp only [List.mem_cons, List.not_mem_nil, or_false] at hmark
    rcases hmark with rfl | rfl | rfl <;> simp [Lexeme.endsBefore, Piece.doubleMarks, hdot, hdigit]
  have hstart : ∀ c, Text.isNameStart c = true → c ≠ '.' ∧ Text.isAsciiDigit c = false := by
    have hcodes : ∀ code, code < 58 → 48 ≤ code → Text.isNameStart (Char.ofNat code) = false := by decide +kernel
    intro c hc
    refine ⟨fun hdot => ?_, Bool.eq_false_iff.mpr fun hdigit => ?_⟩
    · rw [hdot] at hc
      revert hc
      decide +kernel
    · simp only [Text.isAsciiDigit, Bool.and_eq_true, decide_eq_true_eq] at hdigit
      have hhigh : c.toNat ≤ 57 := hdigit.2
      have hnot := hcodes c.toNat (by omega) hdigit.1
      rw [Char.ofNat_toNat, hc] at hnot
      cases hnot
  intro c hc
  cases h with
  | blank hblank _ =>
    obtain rfl := Option.mem_some.mp hc
    simp only [Char.isWhitespace, Bool.or_eq_true, decide_eq_true_eq] at hblank
    rcases hblank with ((rfl | rfl) | rfl) | rfl <;> exact hmarks _ (by decide) rfl
  | lexeme _ _ =>
    unfold Lexeme.isLexical at hword
    split at hword
    · rename_i htext
      rw [htext] at hc
      obtain rfl := Option.mem_some.mp hc
      exact hmarks _ (by decide) rfl
    · rename_i htext
      rw [htext] at hc
      obtain rfl := Option.mem_some.mp hc
      obtain ⟨hdot, hdigit⟩ := hstart _ (Bool.and_eq_true_iff.mp hword).1
      exact hmarks _ hdot hdigit
    · rename_i heq _
      cases heq
    · cases hword

lemma spells_path (h : ∀ part ∈ parts, isIdentifier part = true) :
    Spells (pathSpelling parts) (Text.joinWith "." parts).toList := by
  induction parts with
  | nil => exact .done
  | cons part rest ih =>
    obtain ⟨-, hrest⟩ := List.forall_mem_cons.mp h
    cases rest with
    | nil => exact .single (.word part)
    | cons next rest =>
      have hnext := isLexical_identifier (hrest next List.mem_cons_self)
      have hdot : Spells (.mark "." :: pathSpelling (next :: rest)) (".".toList ++ (Text.joinWith "." (next :: rest)).toList) :=
        .lexeme ((ih hrest).mark_endsBefore hnext (by decide)) (ih hrest)
      rw [Text.joinWith, String.toList_append, String.toList_append, List.append_assoc]
      · refine .lexeme (fun c hc => ?_) hdot
        obtain rfl : '.' = c := Option.mem_some.mp hc
        have hpoint : Text.isNamePart '.' = false := by decide +kernel
        simp [Lexeme.endsBefore, hpoint]
      · exact fun heq => by cases heq

/-- Texts in angle brackets, nothing where there are none. -/
def angledText (texts : List String) : String := if texts.isEmpty then "" else "<" ++ Text.joinWith ", " texts ++ ">"

lemma TypeRef.textEach_eq_map (refs : List TypeRef) : textEach refs = refs.map text := by
  induction refs with
  | nil => rfl
  | cons ref refs ih => rw [textEach, ih, List.map_cons]

lemma TypeRef.text_named (name : String) (args : List TypeRef) (array : Option ArrayShape) :
    (TypeRef.named name args array).text = name ++ (angledText (args.map text) ++ ArrayShape.suffixOf array) := by
  cases args with
  | nil => simp [text, angledText]
  | cons arg args => simp [text, angledText, textEach_eq_map, String.append_assoc]

section Items

variable {ι : Type} {items : List ι} {spell : ι → List Lexeme} {text : ι → String}
  (hlexical : ∀ i ∈ items, Lexical (spell i)) (h : ∀ i ∈ items, Spells (spell i) (text i).toList)

include hlexical h

lemma spells_commas : Spells (commas spell items) (Text.joinWith ", " (items.map text)).toList := by
  induction items with
  | nil => exact .done
  | cons i items ih =>
    obtain ⟨hfirst, hrest⟩ := List.forall_mem_cons.mp h
    obtain ⟨hword, hwords⟩ := List.forall_mem_cons.mp hlexical
    cases items with
    | nil => simpa [commas, Text.joinWith] using hfirst
    | cons next items =>
      have hcomma : Spells (.mark "," :: commas spell (next :: items))
          (",".toList ++ ' ' :: (Text.joinWith ", " ((next :: items).map text)).toList) :=
        .lexeme (fun c hc => Option.mem_some.mp hc ▸ by decide) (.blank rfl (ih hwords hrest))
      have hall := hfirst.append hword hcomma (.cons (show ',' ∈ closers by decide) _)
      simpa [commas, Text.joinWith, List.append_assoc] using hall

variable (hwords : ∀ i ∈ items, ∃ word rest, spell i = .word word :: rest)

include hwords

/-- Items between two marks, each of which begins with a word. -/
lemma spells_enclosed {front back : String} (hmarks : (front, back) ∈ [("<", ">"), ("(", ")")]) :
    Spells (.mark front :: (commas spell items ++ [.mark back]))
      (front.toList ++ ((Text.joinWith ", " (items.map text)).toList ++ back.toList)) := by
  have hclose : Spells [.mark back] back.toList ∧ Closed back.toList ∧
      (Lexeme.mark front).isLexical = true ∧ front ∈ [".", "<", "("] := by
    refine ⟨.single _, ?_⟩
    simp only [List.mem_cons, List.not_mem_nil, or_false, Prod.mk.injEq] at hmarks
    rcases hmarks with ⟨rfl, rfl⟩ | ⟨rfl, rfl⟩
    · exact ⟨.cons (show '>' ∈ closers by decide) [], by decide, by decide⟩
    · exact ⟨.cons (show ')' ∈ closers by decide) [], by decide, by decide⟩
  obtain ⟨hback, hcloser, hfront, hmark⟩ := hclose
  have hall := (spells_commas hlexical h).append (lexical_commas hlexical) hback hcloser
  refine .lexeme ?_ hall
  cases items with
  | nil => exact hcloser.endsBefore hfront
  | cons i items =>
    obtain ⟨word, tail, hspell⟩ := hwords i List.mem_cons_self
    have hword := (lexical_cons.mp (hspell ▸ hlexical i List.mem_cons_self)).1
    rw [commas, hspell] at hall
    exact hall.mark_endsBefore hword hmark

/-- A name with items in angle brackets behind it. -/
lemma spells_titled {title more : List Lexeme} {name : String} {rest : List Char} (htitle : Spells title name.toList)
    (htitles : Lexical title) (hmore : Spells more rest) (hrest : Closed rest) :
    Spells (title ++ (angled (items.map spell) ++ more)) (name.toList ++ ((angledText (items.map text)).toList ++ rest)) := by
  by_cases hne : items = []
  · subst hne
    exact htitle.append htitles hmore hrest
  · have hangled := spells_enclosed hlexical h hwords (show ("<", ">") ∈ _ by decide)
    rw [angled_map hne, angledText, if_neg (by simpa using hne), String.toList_append, String.toList_append, List.append_assoc "<".toList]
    refine htitle.append htitles (hangled.append ?_ hmore hrest) (.cons (show '<' ∈ closers by decide) _)
    exact lexical_cons.mpr ⟨by decide, lexical_append.mpr ⟨lexical_commas hlexical, lexical_cons.mpr ⟨by decide, lexical_nil⟩⟩⟩

end Items

lemma spells_marks {cs : List Char} (h : ∀ c ∈ cs, c ∈ ['[', ',', ']']) :
    Spells (cs.map fun c => .mark (String.singleton c)) cs := by
  have hmarks : ∀ c ∈ ['[', ',', ']'], (Lexeme.mark (String.singleton c)).isLexical = true ∧
      c ∈ closers := by
    simp only [List.forall_mem_cons, List.not_mem_nil, false_implies, implies_true, and_true]
    decide
  induction cs with
  | nil => exact .done
  | cons c cs ih =>
    obtain ⟨hc, hcs⟩ := List.forall_mem_cons.mp h
    have hfirst : Spells (.mark (String.singleton c) :: cs.map fun c => .mark (String.singleton c))
        ((String.singleton c).toList ++ cs) := by
      refine .lexeme (Closed.endsBefore (fun next hnext => ?_) (hmarks c hc).1) (ih hcs)
      exact (hmarks next (hcs next (List.mem_of_mem_head? hnext))).2
    simpa using hfirst

lemma spells_brackets (ranks : List Nat) :
    Spells (ranks.flatMap bracketSpelling) (ArrayShape.suffixOf (ArrayShape.ofRanks ranks)).toList ∧
      Closed (ArrayShape.suffixOf (ArrayShape.ofRanks ranks)).toList := by
  let chars (rank : Nat) : List Char := '[' :: (List.replicate (rank - 1) ',' ++ [']'])
  have hsuffix : (ArrayShape.suffixOf (ArrayShape.ofRanks ranks)).toList = ranks.flatMap chars := by
    have hbrackets : ∀ rank, (ArrayShape.brackets rank).toList = chars rank := fun rank => by
      simp [ArrayShape.brackets, Text.repeated, chars]
    have hjoin : (String.join (ranks.map ArrayShape.brackets)).toList = ranks.flatMap chars := by
      induction ranks with
      | nil => rfl
      | cons rank ranks ih => rw [List.map_cons, String.join_cons, String.toList_append, ih, hbrackets, List.flatMap_cons]
    cases ranks with
    | nil => rfl
    | cons rank ranks => exact hjoin
  have hspelling : ranks.flatMap bracketSpelling = (ranks.flatMap chars).map fun c => .mark (String.singleton c) := by
    rw [List.map_flatMap]
    congr 1
    funext rank
    simp [bracketSpelling, chars]
  rw [hsuffix, hspelling]
  refine ⟨spells_marks fun c hc => ?_, fun c hc => ?_⟩
  · obtain ⟨rank, -, hmem⟩ := List.mem_flatMap.mp hc
    simp only [chars, List.mem_cons, List.mem_append, List.mem_replicate] at hmem ⊢
    tauto
  · cases ranks with
    | nil => cases hc
    | cons rank ranks =>
      obtain rfl : '[' = c := Option.mem_some.mp hc
      decide

lemma spells_name (hparts : ∀ part ∈ parts, isIdentifier part = true)
    (hreads : ∀ arg ∈ args, ReadsAs (spell arg) (tree arg)) (h : ∀ arg ∈ args, Spells (spell arg) arg.text.toList)
    (ranks : List Nat) :
    Spells (pathSpelling parts ++ (angled (args.map spell) ++ ranks.flatMap bracketSpelling))
      (TypeRef.named (Text.joinWith "." parts) args (ArrayShape.ofRanks ranks)).text.toList := by
  obtain ⟨hbrackets, hhead⟩ := spells_brackets ranks
  rw [TypeRef.text_named, String.toList_append, String.toList_append]
  refine spells_titled (fun arg harg => (hreads arg harg).lexical) h (fun arg harg => ?_) (spells_path hparts)
    (lexical_path hparts) hbrackets hhead
  obtain ⟨word, rest, hspell, -⟩ := (hreads arg harg).head
  exact ⟨word, rest, hspell⟩

/-! What is read of it. -/

lemma toRefs_map (h : ∀ arg ∈ args, (tree arg).toRef path = .ok arg) :
    TypeTree.toRefs path (args.map tree) = .ok args := by
  induction args with
  | nil => rfl
  | cons arg args ih =>
    obtain ⟨hfirst, hrest⟩ := List.forall_mem_cons.mp h
    rw [List.map_cons, TypeTree.toRefs, hfirst, ih hrest]
    rfl

lemma joinWith_concat (gap first last : String) (parts : List String) :
    Text.joinWith gap (first :: parts ++ [last]) = Text.joinWith gap (first :: parts) ++ gap ++ last := by
  induction parts generalizing first with
  | nil => rfl
  | cons next parts ih =>
    have hjoin : ∀ rest, Text.joinWith gap (first :: next :: rest) = first ++ gap ++ Text.joinWith gap (next :: rest) :=
      fun _ => rfl
    rw [hjoin, List.cons_append, List.cons_append, hjoin, ← List.cons_append, ih]
    simp only [String.append_assoc]

lemma toRef_qualifiedTree {last : String} {tree : TypeTree} (hparts : ∀ part ∈ parts, isIdentifier part = true)
    (h : tree.toRef path = .ok (.named last args none)) :
    (qualifiedTree parts tree).toRef path = .ok (.named (Text.joinWith "." (parts ++ [last])) args none) := by
  cases parts with
  | nil => exact h
  | cons first rest =>
    have hne : (Text.joinWith "." (first :: rest)).isEmpty = false := by
      have hfirst : first ≠ "" := by
        rintro rfl
        exact absurd (hparts "" List.mem_cons_self) (by decide)
      rw [Bool.eq_false_iff, ne_eq, String.isEmpty_iff]
      cases rest with
      | nil => exact hfirst
      | cons => simp [Text.joinWith]
    have htree : (TypeTree.qualified (Text.joinWith "." (first :: rest)) tree).toRef path =
        .ok (.named (qualify (Text.joinWith "." (first :: rest)) last) args none) := by
      rw [TypeTree.toRef, h]
      rfl
    rw [qualify, hne, if_neg Bool.false_ne_true] at htree
    rw [joinWith_concat]
    exact htree

lemma TypeRef.Writable.reads (path : String) {ref : TypeRef} (h : ref.Writable) : ∃ spelling tree,
    ReadsAs spelling tree ∧ Spells spelling ref.text.toList ∧ tree.toRef path = .ok ref := by
  induction h with
  | @builtin ranks type hranks =>
    obtain ⟨hbrackets, hhead⟩ := spells_brackets ranks
    refine ⟨_, _, .builtin type hranks, ?_, @TypeTree.toRef_brackets _ _ (.builtin type none) none rfl ranks⟩
    rw [TypeRef.text, String.toList_append]
    exact .lexeme (hhead.endsBefore (isLexical_keyword type)) hbrackets
  | @named parts args ranks hne hparts _ hranks ih =>
    have : Nonempty TypeTree := ⟨.simple ""⟩
    choose! spell tree hreads hspells htree using ih
    obtain ⟨init, last, rfl⟩ := List.eq_nil_or_concat' parts |>.resolve_left hne
    refine ⟨_, _, .named hparts hreads hranks,
      spells_name hparts hreads hspells ranks, ?_⟩
    have hname := toRef_qualifiedTree (fun part hpart => hparts part (List.mem_append_left _ hpart))
      (@toRef_nameTree last _ _ _ (toRefs_map htree))
    exact @TypeTree.toRef_brackets _ _ (.named _ args none) none hname ranks

/-- The text of a reference is read back as the reference. -/
theorem TypeRef.parse_text {ref : TypeRef} (h : ref.Writable) : TypeRef.parse ref.text = .ok ref := by
  obtain ⟨spelling, tree, hreads, htext, htree⟩ := h.reads referencePath
  exact (hreads.parse_spelling htext).trans htree

/-- A map of nested names, arrays of arrays among its arguments. -/
def tangledRef : TypeRef :=
  .named "System.Collections.@dict" [.builtin .string none, .named "Pair" [.named "T" [] none,
    .builtin .int (some ⟨[1, 3]⟩)] (some ⟨[2]⟩)] (some ⟨[1]⟩)

theorem TypeRef.parse_tangled : tangledRef.Writable ∧
    tangledRef.text = "System.Collections.@dict<string, Pair<T, int[][,,]>[,]>[]" ∧
    TypeRef.parse tangledRef.text = .ok tangledRef := by
  have hwritable : tangledRef.Writable :=
    @Writable.named ["System", "Collections", "@dict"] _ [1] (by decide) (by decide +kernel)
      (by
        simp only [List.forall_mem_cons, List.not_mem_nil, false_imp_iff, implies_true, and_true]
        refine ⟨@Writable.builtin [] .string (List.forall_mem_nil _), @Writable.named ["Pair"] _ [2] (by decide) (by decide +kernel) ?_ (by decide)⟩
        simp only [List.forall_mem_cons, List.not_mem_nil, false_imp_iff, implies_true, and_true]
        exact ⟨@Writable.named ["T"] [] [] (by decide) (by decide +kernel) (List.forall_mem_nil _) (List.forall_mem_nil _),
          @Writable.builtin [1, 3] .int (by decide)⟩)
      (by decide)
  exact ⟨hwritable, by decide +kernel, TypeRef.parse_text hwritable⟩

end TypeAtlas
