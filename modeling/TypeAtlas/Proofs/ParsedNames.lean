import TypeAtlas.Proofs.Compressed
import TypeAtlas.Proofs.Scanning
import TypeAtlas.Proofs.UnitLaws
import TypeAtlas.Source.Reference

/-!
The names in a type that is written on its own. Whatever the text is, the names of the reference
that is parsed from it are made of the characters of the text and of what stands around it
(`TypeRef.every_parse`).
-/

namespace TypeAtlas

variable {c : Char} {P : Char → Prop} {text : String} {ref : TypeRef}

namespace Source

lemma mem_of_mem_cleanName (h : c ∈ (cleanName text).toList) : c ∈ text.toList := by
  have hcompact : c ∈ Text.compact text.toList := by
    unfold cleanName at h
    rw [String.toList_ofList] at h
    split at h
    · exact List.mem_of_mem_drop h
    · exact h
  exact (List.mem_filter.mp hcompact).1

/-- All characters of the tokens in front of a cursor are as told, and so are those of the names in
the type it remembers. -/
def Law.ofChars (P : Char → Prop) : Law where
  Holds c := (∀ token ∈ c.rest, ∀ x ∈ token.chars, P x) ∧
    ∀ tree, c.declared = some tree → tree.NamesAre fun name => ∀ x ∈ name.toList, P x
  Named name := ∀ x ∈ name.toList, P x
  Told tree := tree.NamesAre fun name => ∀ x ∈ name.toList, P x
  next := by
    rintro ⟨_, stop, declared⟩ token rest hc rfl
    exact ⟨(List.forall_mem_cons.mp hc.1).2, hc.2⟩
  told _ _ _ htree := htree
  declare hc hc' htree := ⟨hc'.1, told_or hc.2 htree⟩
  word := by
    rintro ⟨_, stop, declared⟩ token rest hc rfl hword x hx
    exact hc.1 token List.mem_cons_self x (List.mem_append_right _ hx)
  qualifier := by
    intro c stop hc x hx
    obtain ⟨token, htoken, hx⟩ := mem_chars_of_mem_textOf (mem_of_mem_cleanName hx)
    exact hc.1 token ((List.takeWhile_sublist _).subset htoken) x hx
  empty := fun x hx => nomatch hx

/-- The names in the first type of a text are made of its characters. -/
lemma Document.namesAre_declared {path : String} {tree : TypeTree} (htext : ∀ x ∈ text.toList, P x)
    (h : (Document.read path text).declared = some tree) : tree.NamesAre fun name => ∀ x ∈ name.toList, P x := by
  have hstart : ∀ tokens, tokenize text = some tokens → (Law.ofChars P).Holds { rest := tokens } := by
    intro tokens htokens
    refine ⟨fun token htoken x hx => htext x ?_, fun tree htree => nomatch htree⟩
    exact (prefix_of_tokenize htokens).subset (List.mem_flatMap.mpr ⟨token, htoken, hx⟩)
  obtain ⟨c, hc, hdeclared⟩ := Law.holds_read hstart h
  exact hc.2 tree hdeclared

end Source

mutual

/-- Every name in a reference, with the arguments behind it, is as told. -/
def TypeRef.Every (P : String → List TypeRef → Prop) : TypeRef → Prop
  | .builtin .. => True
  | .named name args _ => P name args ∧ TypeRef.EveryEach P args

def TypeRef.EveryEach (P : String → List TypeRef → Prop) : List TypeRef → Prop
  | [] => True
  | ref :: refs => ref.Every P ∧ TypeRef.EveryEach P refs

end

mutual

instance TypeRef.decidableEvery {P : String → List TypeRef → Prop} [∀ name args, Decidable (P name args)] :
    (ref : TypeRef) → Decidable (ref.Every P)
  | .builtin .. => .isTrue trivial
  | .named name args _ =>
    have : Decidable (TypeRef.EveryEach P args) := TypeRef.decidableEveryEach args
    inferInstanceAs (Decidable (P name args ∧ TypeRef.EveryEach P args))

instance TypeRef.decidableEveryEach {P : String → List TypeRef → Prop} [∀ name args, Decidable (P name args)] :
    (refs : List TypeRef) → Decidable (TypeRef.EveryEach P refs)
  | [] => .isTrue trivial
  | ref :: refs =>
    have : Decidable (ref.Every P) := TypeRef.decidableEvery ref
    have : Decidable (TypeRef.EveryEach P refs) := TypeRef.decidableEveryEach refs
    inferInstanceAs (Decidable (ref.Every P ∧ TypeRef.EveryEach P refs))

end

lemma TypeRef.Every.withArray {P : String → List TypeRef → Prop} (h : ref.Every P) (array : Option ArrayShape) :
    (ref.withArray array).Every P := by
  cases ref with
  | builtin type _ => trivial
  | named name args _ => exact h

mutual

lemma TypeRef.Every.and_imp {P Q R : String → List TypeRef → Prop}
    (himp : ∀ name args, P name args → Q name args → R name args) :
    ∀ {ref : TypeRef}, ref.Every P → ref.Every Q → ref.Every R
  | .builtin .., _, _ => trivial
  | .named .., hP, hQ => ⟨himp _ _ hP.1 hQ.1, TypeRef.EveryEach.and_imp himp hP.2 hQ.2⟩

lemma TypeRef.EveryEach.and_imp {P Q R : String → List TypeRef → Prop}
    (himp : ∀ name args, P name args → Q name args → R name args) :
    ∀ {refs : List TypeRef}, TypeRef.EveryEach P refs → TypeRef.EveryEach Q refs → TypeRef.EveryEach R refs
  | [], _, _ => trivial
  | _ :: _, hP, hQ => ⟨hP.1.and_imp himp hQ.1, TypeRef.EveryEach.and_imp himp hP.2 hQ.2⟩

end

/-- What a reference makes of the names in a written type has the property they have. -/
structure NamesClosed (N : String → Prop) : Prop where
  qualify : ∀ {qualifier name}, N qualifier → N name → N (qualify qualifier name)
  tuple : N "System.ValueTuple"

namespace Source.TypeTree

variable {N : String → Prop} {path : String}

mutual

/-- The names of a reference are those of the type it stands for, behind their qualifiers. -/
lemma every_toRef (hN : NamesClosed N) : ∀ {tree : TypeTree} {ref : TypeRef}, tree.toRef path = .ok ref →
    tree.NamesAre N → ref.Every fun name _ => N name
  | .builtin type, _, h, _ => by
    cases h
    trivial
  | .simple name, _, h, htree => by
    cases h
    exact ⟨htree, trivial⟩
  | .generic name args, _, h, htree => by
    obtain ⟨refs, hrefs, h⟩ := bind_eq_ok h
    cases h
    exact ⟨htree.1, everyEach_toRefs hN hrefs htree.2⟩
  | .qualified qualifier last, _, h, htree => by
    obtain ⟨ref, href, h⟩ := bind_eq_ok h
    have hlast := every_toRef hN href htree.2
    cases ref with
    | builtin type array =>
      cases h
      exact hlast
    | named name args array =>
      cases h
      exact ⟨hN.qualify htree.1 hlast.1, hlast.2⟩
  | .array element rank, _, h, htree => by
    obtain ⟨ref, href, h⟩ := bind_eq_ok h
    cases h
    exact (every_toRef hN href htree).withArray _
  | .wrapped inner, _, h, htree => @every_toRef hN inner _ h htree
  | .tuple elements, _, h, htree => by
    obtain ⟨refs, hrefs, h⟩ := bind_eq_ok h
    cases h
    exact ⟨hN.tuple, everyEach_toRefs hN hrefs htree⟩
  | .unsupported node text, _, h, _ => by cases h

lemma everyEach_toRefs (hN : NamesClosed N) : ∀ {trees : List TypeTree} {refs : List TypeRef},
    toRefs path trees = .ok refs → NamesAreEach N trees → TypeRef.EveryEach (fun name _ => N name) refs
  | [], _, h, _ => by
    cases h
    trivial
  | tree :: trees, _, h, htrees => by
    obtain ⟨ref, href, h⟩ := bind_eq_ok h
    obtain ⟨refs, hrefs, h⟩ := bind_eq_ok h
    cases h
    exact ⟨every_toRef hN href htrees.1, everyEach_toRefs hN hrefs htrees.2⟩

end

end Source.TypeTree

lemma mem_of_mem_qualify {ns name : String} (h : c ∈ (qualify ns name).toList) :
    c ∈ ns.toList ∨ c = '.' ∨ c ∈ name.toList := by
  unfold qualify at h
  split at h
  · exact .inr (.inr h)
  · simpa [or_assoc] using h

/-- The names of a parsed reference are made of the characters of the document around its text and
of those in the name that tuples have. -/
lemma TypeRef.every_parse (h : TypeRef.parse text = .ok ref) (hhost : ∀ c ∈ (host text).toList, P c)
    (htuple : ∀ c ∈ "System.ValueTuple".toList, P c) : ref.Every fun name _ => ∀ c ∈ name.toList, P c := by
  have hclosed : NamesClosed fun name => ∀ c ∈ name.toList, P c := by
    refine ⟨fun hqualifier hname c hc => ?_, htuple⟩
    rcases mem_of_mem_qualify hc with hc | rfl | hc
    · exact hqualifier c hc
    · exact htuple '.' (by decide)
    · exact hname c hc
  unfold TypeRef.parse at h
  split at h
  · rename_i tree hdeclared
    exact Source.TypeTree.every_toRef hclosed h (Source.Document.namesAre_declared hhost hdeclared)
  · cases h

end TypeAtlas
