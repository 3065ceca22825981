import TypeAtlas.Proofs.Layout
import TypeAtlas.Source.Reference

/-!
Reading types that are written on their own. The document around such a type declares a
variable, whose type is remembered. Main
statement: whatever text spells a type, the reference that is parsed from it is the one that the
tree of the type stands for, and neither modifiers in front of the type nor names of further
variables behind it change that (`ReadsAs.parse_field`).
-/

namespace TypeAtlas.Source.Reader

variable {α : Type} {s : List Lexeme} {F : Option Lexeme → Prop} {Q : List Token → α → Prop}
  {after : Option TypeTree → Option TypeTree}

lemma declare_takes (before : Option TypeTree) (tree : TypeTree) :
    TakesTo (fun _ => before.or (some tree)) (declare before tree) [] F fun _ _ => True :=
  .nil fun _ _ _ _ _ => ⟨(), rfl, trivial⟩

/-- What was remembered before is looked up first. -/
lemma get_takes {f : Cursor → Reader α}
    (h : ∀ cursor, TakesTo (fun _ => after cursor.declared) (f cursor) s F Q) : TakesTo after (get >>= f) s F Q := by
  intro tokens rest stop declared hspelling hplain hnext
  exact h ⟨tokens ++ rest, stop, declared⟩ tokens rest stop declared hspelling hplain hnext

end TypeAtlas.Source.Reader

namespace TypeAtlas

open Source Source.Reader

variable {depth : Nat} {word : String} {F : Option Lexeme → Prop}

/-! A variable in the body of a type. -/

def EndsVariable (next : Option Lexeme) : Prop := next = some (.mark ",") ∨ next = some (.mark ";")

lemma EndsVariable.ne_mark {next : Option Lexeme} (h : EndsVariable next) {text : String} (htext : text ∉ [",", ";"]) :
    next ≠ some (.mark text) := by
  rcases h with rfl | rfl <;> rintro ⟨⟩ <;> simp at htext

lemma declarator_takes (g : Grammar) (word : String) :
    Takes (declarator g) [.word word] EndsVariable fun _ _ => True := by
  have hword : Takes (namePattern 16 <|> do
      let _ ← name) [.word word] EndsVariable fun _ _ => True := by
    refine TakesTo.orElse_right (Refuses.bind (Refuses.before (F := (· = some (.word word))) (mark_refuses ?_) fun _ _ => rfl)) ?_
    · rintro _ rfl
      simp
    · exact (name_takes word).bind_pure fun _ _ _ => trivial
  refine hword.bind_nil fun _ _ _ => ?_
  refine (TakesTo.optional_none (mark_refuses fun _ hnext => hnext.ne_mark (by decide)).bind).look (fun _ _ => ?_)
    fun _ hnext => hnext
  exact (TakesTo.optional_none (mark_refuses fun _ hnext => hnext.ne_mark (by decide)).bind).bind_pure fun _ _ _ => trivial

/-- What stands behind the first of some variables. -/
def variablesEnd (others : List String) : List Lexeme :=
  (others.flatMap fun other => [.mark ",", .word other]) ++ [.mark ";"]

lemma endsVariable_variablesEnd (others : List String) (next : Option Lexeme) :
    EndsVariable (upcoming (variablesEnd others) next) := by
  cases others with
  | nil => exact .inr rfl
  | cons other others => exact .inl rfl

namespace ReadsAs

variable {spelling : List Lexeme} {tree : TypeTree} (h : ReadsAs spelling tree) (hdepth : spelling.length ≤ depth)
  (hword : isPlainName word = true) (others : List String)

include h

/-- No parameters stand behind the first word of a type. -/
lemma constructor_refuses : Refuses (constructor (grammar depth)) (spelling ++ .word word :: variablesEnd others) F := by
  obtain ⟨first, rest, rfl, -, hrest⟩ := h.head
  refine (name_takes first).andRefuse (s := [.word first]) (t := rest ++ .word word :: variablesEnd others) fun _ => ?_
  refine Refuses.bind (Refuses.bind (Refuses.before (F := (· ≠ some (.mark "("))) (mark_refuses fun _ hnext => hnext) ?_))
  intro next _ heq
  rw [upcoming_append, upcoming, Option.or_eq_some_iff] at heq
  rcases heq with heq | ⟨-, heq⟩
  · exact (hrest _ heq).2 rfl
  · cases heq

include hdepth

/-- What goes on with something else than the name of a variable fails behind a type. -/
lemma typed_refuses {β : Type} {f : TypeTree → Reader β}
    (hf : ∀ tree, Refuses (f tree) (.word word :: variablesEnd others) F) :
    Refuses (do
      let type ← (grammar depth).type
      interfaceQualifier (grammar depth)
      f type) (spelling ++ .word word :: variablesEnd others) F := by
  obtain ⟨depth, rfl⟩ := h.exists_depth hdepth
  refine (h.takes hdepth).refuse (fun _ tree _ => ?_) fun _ _ => endsType_word word
  have hqualifier : Passes (interfaceQualifier (grammar (depth + 1)))
      ([.word word] ++ (PlanParam.names [] ++ variablesEnd others)) F fun _ => True := by
    refine interfaceQualifier_passes (by simp) (fun next _ text htext =>
      (endsVariable_variablesEnd others next).ne_mark ?_) depth
    revert text htext
    decide
  exact hqualifier.refuse fun _ _ => hf tree

include hword

/-- A variable is no property and no method. -/
lemma typedMember_refuses (attributes : List AttributeList) : Refuses (typedMember (grammar depth) attributes)
    (spelling ++ .word word :: variablesEnd others) F := by
  refine memberWords_pass.refuse (s := []) (fun _ found hfound => ?_) fun next _ => h.starts _ next
  subst hfound
  refine (ahead_takes _).andRefuse fun found => ?_
  refine h.typed_refuses hdepth others fun tree => ?_
  refine (atAnyKeyword_other (notMem_keywords hword (by decide))).refuse (s := []) (fun _ found hfound => ?_) fun _ _ => rfl
  subst hfound
  refine (name_takes word).andRefuse (s := [.word word]) fun _ => ?_
  refine Refuses.before (F := EndsVariable) ?_ fun next _ => endsVariable_variablesEnd others next
  refine (atMark_passes fun _ hnext => hnext.ne_mark (by decide)).look_refuse_eq ?_
  refine (atMark_passes fun _ hnext => hnext.ne_mark (by decide)).look_refuse_eq ?_
  refine (markIf_passes fun _ hnext => hnext.ne_mark (by decide)).look_refuse_eq ?_
  exact (mark_refuses fun _ hnext => hnext.ne_mark (by decide)).bind.bind

lemma operatorMember_refuses : Refuses (operatorMember (grammar depth)) (spelling ++ .word word :: variablesEnd others) F := by
  have hne := ne_of_isPlainName hword (show "operator" ∈ keywords by decide)
  refine (atAnyKeyword_passes (F := StartsType) fun other h => h.notMem (by decide) rfl).refuse (s := [])
    (fun _ found hfound => ?_) fun next _ => h.starts _ next
  subst hfound
  apply h.typed_refuses hdepth others
  exact fun _ => ((keyword_refuses_other hne.symm).before fun _ _ => rfl).bind

lemma indexer_refuses : Refuses (indexer (grammar depth)) (spelling ++ .word word :: variablesEnd others) F := by
  have hne := ne_of_isPlainName hword (show "this" ∈ keywords by decide)
  apply h.typed_refuses hdepth others
  exact fun _ => ((keyword_refuses_other hne.symm).before fun _ _ => rfl).bind

lemma fields_take : TakesTo (·.or (some tree)) (fields (grammar depth)) (spelling ++ .word word :: variablesEnd others) F
    fun _ _ => True := by
  change TakesTo _ _ (spelling ++ (commas (fun name => [.word name]) (word :: others) ++ [.mark ";"])) _ _
  refine memberWords_pass.look_eq ?_ fun next _ => h.starts _ next
  refine (ahead_takes _).look_any fun found => ?_
  rw [← List.append_assoc]
  refine TakesTo.before (F := (· = some (.mark ";"))) (Q := fun _ _ => True) (get_takes fun cursor => ?_) (fun _ _ _ => mark_takes ";") fun _ _ => rfl
  refine (h.takes hdepth).bind (fun _ found hfound => ?_) fun _ _ => endsType_word word
  subst hfound
  refine (atAnyKeyword_other (notMem_keywords hword (by decide))).look_eq ?_ fun _ _ => rfl
  have hnames := TakesTo.commaList1 (G := (· = some (.mark ";"))) (T := fun _ _ => True)
    (fun name (_ : name ∈ word :: others) => declarator_takes (grammar depth) name) (.inl rfl) (by
      rintro _ rfl
      exact ⟨.inr rfl, by simp⟩)
  rw [← List.append_nil (commas _ _)]
  exact hnames.bind (fun _ _ _ => declare_takes cursor.declared found) fun _ hnext => hnext

end ReadsAs

/-- How variables of a type are written in the body of a class, modifiers first. -/
def fieldSpelling (words : List String) (spelling : List Lexeme) (word : String) (others : List String) : List Lexeme :=
  wordSpelling words ++ (spelling ++ .word word :: variablesEnd others)

namespace ReadsAs

variable {spelling : List Lexeme} {tree : TypeTree} {words : List String} (h : ReadsAs spelling tree)
  (hwords : PlainModifiers words) (hword : isPlainName word = true) (others : List String)

include h hwords hword

lemma member_takes (hdepth : spelling.length ≤ depth) (n : Nat) :
    TakesTo (·.or (some tree)) (Reader.member (grammar depth) (n + 1)) (fieldSpelling words spelling word others) F
      fun _ _ => True := by
  have hdestructor : Refuses (destructor (grammar depth)) (spelling ++ .word word :: variablesEnd others) F :=
    Refuses.bind (Refuses.before (F := StartsType) (mark_refuses fun _ hnext => hnext.ne_mark "~")
      fun next _ => h.starts _ next)
  refine (TypeAtlas.member_takes (Q := fun _ => True) hwords (h.beginsMember hword _) ?_ n).imp fun _ _ _ => trivial
  refine TakesTo.orElse_right (h.typedMember_refuses hdepth hword others []) (TakesTo.bind_pure (Q := fun _ _ => True) ?_
    fun _ _ _ => trivial)
  refine TakesTo.orElse_right (h.constructor_refuses others) (TakesTo.orElse_right hdestructor ?_)
  refine TakesTo.orElse_right (h.operatorMember_refuses hdepth hword others) ?_
  exact TakesTo.orElse_right (h.indexer_refuses hdepth hword others) (h.fields_take hdepth hword others)

lemma items_take (hdepth : (hostSpelling "__Reference" (fieldSpelling words spelling word others)).length ≤ depth) :
    TakesTo (·.or (some tree)) (items (grammar depth) depth)
      (hostSpelling "__Reference" (fieldSpelling words spelling word others)) AtEnd fun _ _ => True := by
  have hroom : spelling.length ≤ depth := by
    simp only [hostSpelling, fieldSpelling, List.length_append] at hdepth
    omega
  exact (host_takes (F := fun _ => True) (by simp [fieldSpelling]) hdepth trivial
    fun n => h.member_takes hwords hword others hroom n).imp fun _ _ _ => trivial

end ReadsAs

/-! The text around a type. -/

namespace Source.Spells

variable {spelling more : List Lexeme} {text rest : List Char}

/-- Two texts one behind the other. -/
lemma append (h : Spells spelling text) (hlexical : Lexical spelling) (hmore : Spells more rest) (hrest : Closed rest) :
    Spells (spelling ++ more) (text ++ rest) := by
  induction h with
  | done => exact hmore
  | blank hc _ ih => exact .blank hc (ih hlexical)
  | @lexeme spelling text first hfirst _ ih =>
    obtain ⟨hword, hspelling⟩ := lexical_cons.mp hlexical
    rw [List.cons_append, List.append_assoc]
    exact .lexeme (hrest.endsBefore_append hword hfirst) (ih hspelling)

/-- Two texts with a space between them. -/
lemma append_blank (h : Spells spelling text) (hlexical : Lexical spelling) (hmore : Spells more rest) :
    Spells (spelling ++ more) (text ++ ' ' :: rest) :=
  h.append hlexical (.blank rfl hmore) (.cons (by decide) rest)

end Source.Spells

lemma toList_host (text : String) : (TypeRef.host text).toList =
    "class __Reference \x7b".toList ++ ' ' :: (text.toList ++ ' ' :: "__value; \x7d".toList) := by
  have hopen : "class __Reference \x7b ".toList = "class __Reference \x7b".toList ++ [' '] := by decide +kernel
  have hclose : " __value; \x7d".toList = ' ' :: "__value; \x7d".toList := by decide +kernel
  unfold TypeRef.host
  rw [String.toList_append, String.toList_append, hopen, hclose, List.append_assoc, List.append_assoc,
    List.singleton_append]

lemma spells_host {spelling : List Lexeme} {text : String} (h : Spells spelling text.toList) (hlexical : Lexical spelling) :
    ∃ tokens, tokenize (TypeRef.host text) = some tokens ∧ Plain tokens ∧
      tokens.map Token.lexeme = hostSpelling "__Reference" (spelling ++ [.word "__value", .mark ";"]) := by
  have hopen : Lexical [.word "class", .word "__Reference", .mark "\x7b"] ∧
      Lexical [.word "__value", .mark ";", .mark "\x7d"] := by
    unfold Lexical
    decide +kernel
  have hbefore : Spells [.word "class", .word "__Reference", .mark "\x7b"] "class __Reference \x7b".toList :=
    spells_of_isSpelledBy (by decide +kernel)
  have hafter : Spells [.word "__value", .mark ";", .mark "\x7d"] "__value; \x7d".toList :=
    spells_of_isSpelledBy (by decide +kernel)
  have hall := hbefore.append_blank hopen.1 (h.append_blank hlexical hafter)
  rw [← toList_host] at hall
  obtain ⟨tokens, htokens, hlexemes, hplain⟩ := hall.tokenize
    (lexical_append.mpr ⟨hopen.1, lexical_append.mpr ⟨hlexical, hopen.2⟩⟩)
  exact ⟨tokens, htokens, hplain, by rw [hlexemes]; simp [hostSpelling]⟩

lemma isPlainName_value : isPlainName "__value" = true := by decide +kernel

/-- The variable of the document stands behind those of the text. -/
lemma variables_eq (names : List String) : (.mark "," :: names.flatMap fun name => [.word name, .mark ","]) ++
    [.word "__value", .mark ";"] = variablesEnd (names ++ ["__value"]) := by
  induction names with
  | nil => rfl
  | cons name names ih =>
    have hend : variablesEnd (name :: names ++ ["__value"]) =
        .mark "," :: .word name :: variablesEnd (names ++ ["__value"]) := rfl
    rw [hend, ← ih]
    rfl

namespace ReadsAs

variable {spelling : List Lexeme} {tree : TypeTree} {words names : List String} {text : String}

/-- A text that spells a type, with modifiers and further variables around it. -/
lemma parse_field (h : ReadsAs spelling tree) (hwords : PlainModifiers words)
    (hnames : ∀ name ∈ names, isPlainName name = true)
    (htext : Spells ((words.flatMap fun word => [.word word]) ++ (spelling ++ names.flatMap fun name => [.word name, .mark ","]))
      text.toList) : TypeRef.parse text = tree.toRef TypeRef.referencePath := by
  have hmodifiers : ∀ word ∈ modifiers, (Lexeme.word word).isLexical = true := by decide +kernel
  have hlexical : Lexical ((words.flatMap fun word => [.word word]) ++
      (spelling ++ names.flatMap fun name => [.word name, .mark ","])) := by
    refine lexical_append.mpr ⟨lexical_flatMap fun word hword => ?_, lexical_append.mpr ⟨h.lexical, lexical_flatMap ?_⟩⟩
    · exact lexical_cons.mpr ⟨hmodifiers word (hwords word hword).1, lexical_nil⟩
    · intro name hname
      exact lexical_cons.mpr ⟨isLexical_word (hnames name hname), lexical_cons.mpr ⟨by decide, lexical_nil⟩⟩
  obtain ⟨tokens, htokenize, hplain, hlexemes⟩ := spells_host htext hlexical
  obtain ⟨first, others, hfirst, hfield⟩ : ∃ first others, isPlainName first = true ∧
      ((words.flatMap fun word => [.word word]) ++ (spelling ++ names.flatMap fun name => [.word name, .mark ","])) ++
        [.word "__value", .mark ";"] = fieldSpelling words spelling first others := by
    cases names with
    | nil => exact ⟨"__value", [], isPlainName_value, by simp [fieldSpelling, variablesEnd]⟩
    | cons name names =>
      refine ⟨name, names ++ ["__value"], hnames name List.mem_cons_self, ?_⟩
      rw [fieldSpelling, ← variables_eq]
      simp
  rw [hfield] at hlexemes
  have hlength : (hostSpelling "__Reference" (fieldSpelling words spelling first others)).length ≤ tokens.length + 1 := by
    rw [← hlexemes, List.length_map]
    omega
  obtain ⟨_, -, hdeclared, -⟩ := Document.read_of_takes TypeRef.referencePath htokenize hplain
    (hlexemes ▸ h.items_take hwords hfirst others hlength)
  unfold TypeRef.parse
  rw [hdeclared]
  rfl

/-- Whatever text spells a type, the reference in it is the one that its tree stands for. -/
lemma parse_spelling (h : ReadsAs spelling tree) (htext : Spells spelling text.toList) :
    TypeRef.parse text = tree.toRef TypeRef.referencePath :=
  @parse_field _ _ [] [] _ h nofun nofun (by simpa using htext)

end ReadsAs

end TypeAtlas
