import TypeAtlas.Proofs.HeaderReading

/-!
Reading properties and methods. A member of a plan is read with its name, its types and its
accessors or parameters, and nothing else is taken for the beginning of one.
-/

namespace TypeAtlas.Source.Reader

variable {α : Type} {F G : Option Lexeme → Prop} {g : Grammar} {p : Reader α} {s : List Lexeme}
  {Q : List Token → α → Prop} {word : String} {generics : List PlanParam}

/-- No conditional region stands before plain tokens. -/
lemma noRegion_of_plain {tokens : List Token} (h : Plain tokens) :
    (tokens.head?.bind fun token =>
      (token.notes.find? isAttributeRegion).map fun note => (token, note)) = none := by
  cases hfirst : tokens.head? with
  | none => rfl
  | some first =>
    rw [Option.bind_some, h.unnoted first (List.mem_of_mem_head? hfirst)]
    rfl

/-- Where no conditional region stands, the text of a declaration is that of its tokens. -/
lemma TakesTo.withDeclText {after : Option TypeTree → Option TypeTree} (h : TakesTo after p s F Q) (hs : s ≠ []) :
    TakesTo after (Reader.withDeclText p) s F fun tokens found =>
      Q tokens found.1 ∧ found.2 = (textOf tokens, spanOf tokens) := by
  intro tokens rest stop declared hspelling hplain hnext
  obtain ⟨x, hrun, hx⟩ := h.withText hs tokens rest stop declared hspelling hplain hnext
  refine ⟨x, ?_, hx⟩
  unfold Reader.withDeclText
  simp only [StateT.run_bind, StateT.run_get, Option.bind_eq_bind, Option.bind_some, Option.pure_def, hrun,
    noRegion_of_plain hplain]
  rfl

lemma Refuses.withDeclText (h : Refuses p s F) : Refuses (Reader.withDeclText p) s F := by
  intro tokens rest stop declared hspelling hplain hnext
  have hrun := h.withText tokens rest stop declared hspelling hplain hnext
  unfold Reader.withDeclText
  simp only [StateT.run_bind, StateT.run_get, Option.bind_eq_bind, Option.bind_some, Option.pure_def, hrun,
    Option.bind_none]

/-! Accessors. -/

lemma functionBody_semicolon : Takes (functionBody g) [.mark ";"] F fun _ _ => True := by
  refine (atMark_other (show "\x7b" ≠ ";" by decide)).look_eq ?_ fun _ _ => rfl
  refine (markIf_other (show "=>" ≠ ";" by decide)).look_eq ?_ fun _ _ => rfl
  exact mark_takes ";"

lemma accessor_takes (hword : word ∉ modifiers) :
    Takes (accessor g) [.word word, .mark ";"] F fun _ found => found = word := by
  refine (attributeLists_passes (F := (· = some (.word word))) (by simp)).look (fun _ _ => ?_) fun _ _ => rfl
  refine (modifiers_pass (F := (· = some (.word word))) (by simpa using hword)).look (fun _ _ => ?_) fun _ _ => rfl
  refine (name_takes word).andThen (s := [.word word]) fun _ found hfound => ?_
  exact functionBody_semicolon.bind_pure fun _ _ _ => hfound

lemma accessor_refuses : Refuses (accessor g) [] (· = some (.mark "\x7d")) := by
  refine (attributeLists_passes (by simp)).look_refuse fun _ _ => ?_
  refine (modifiers_pass (by simp)).look_refuse fun _ _ => ?_
  exact (name_refuses (by simp)).bind

lemma accessors_take {words : List String} (hwords : ∀ word ∈ words, word ∉ modifiers) :
    Takes (accessors g) ([.mark "\x7b"] ++ (words.flatMap (fun word => [.word word, .mark ";"]) ++ [.mark "\x7d"])) F
      fun _ found => found = words := by
  refine (mark_takes "\x7b").andThen fun _ _ _ => ?_
  have hmany := TakesTo.many (p := accessor g) (F := fun _ => True) (G := (· = some (.mark "\x7d")))
    (fun word hword => accessor_takes (hwords word hword)) (fun _ _ => ⟨by simp, trivial⟩) (fun _ _ => trivial)
    accessor_refuses
  refine hmany.bind (fun _ names hnames => ?_) fun _ _ => rfl
  refine (mark_takes "\x7d").bind_pure fun _ _ _ => ?_
  rw [eq_map_of_forall₂ hnames, List.map_id']

/-! What stands between a type and the name of a member. -/

lemma names_read_as_arguments (hnames : ∀ param ∈ generics, isPlainName param.name = true)
    (depth : Nat) : Takes (optional (typeArguments (grammar (depth + 1)))) (PlanParam.names generics)
      (· ≠ some (.mark "<")) fun _ _ => True := by
  by_cases hne : generics = []
  · subst hne
    exact (TakesTo.optional_none (mark_refuses fun _ hnext => hnext).bind).imp fun _ _ _ => trivial
  · have htype : ∀ param ∈ generics, Takes (grammar (depth + 1)).type [.word param.name] EndsType fun _ found =>
        found = .simple param.name := by
      intro param hparam
      have hword : ReadsAs [.word param.name] (.simple param.name) :=
        @ReadsAs.simple _ [] (isIdentifier_of_isPlainName (hnames param hparam)) nofun
      exact hword.takes (Nat.le_add_left 1 depth)
    have hargs := typeArguments_takes (F := (· ≠ some (.mark "<"))) htype hne fun param _ => ⟨param.name, rfl⟩
    exact hargs.optional_some.imp fun _ _ _ => trivial

/-- No interface stands before the name of a member. -/
lemma interfaceQualifier_passes
    (hnames : ∀ param ∈ generics, isPlainName param.name = true) {t : List Lexeme}
    (hnext : ∀ next, F next → EndsName (upcoming t next)) (depth : Nat) :
    Passes (interfaceQualifier (grammar (depth + 1))) ([.word word] ++ (PlanParam.names generics ++ t)) F fun _ => True := by
  refine Passes.bind_pure (Passes.many ?_)
  refine (name_takes word).andRefuse fun _ => ?_
  refine (names_read_as_arguments hnames depth).refuse (fun _ _ _ => ?_) fun next h => ?_
  · have hother : ∀ text ∈ [".", "<", "::"], Refuses (mark text) t F := fun text htext =>
      Refuses.before (F := EndsName) (mark_refuses fun _ hends => hends text htext) hnext
    exact (hother "." (by decide)).orElse (hother "::" (by decide))
  · exact hnext next h "<" (by decide)

/-! What begins no declaration. -/

lemma usingDirective_refuses (h : ∀ next, F next → next ≠ some (.word "global") ∧ next ≠ some (.word "using")) :
    Refuses (usingDirective g) [] F := by
  refine (keywordIf_passes (F := F) fun next hnext => (h next hnext).1).look_refuse fun _ _ => ?_
  exact (keyword_refuses fun next hnext => (h next hnext).2).bind

/-- A word that is no using directive, with something behind it that is none either. -/
lemma usingDirective_refuses_words (hword : word ≠ "using") {rest : List Lexeme}
    (hrest : ∀ next, F next → upcoming rest next ≠ some (.word "using")) :
    Refuses (usingDirective g) (.word word :: rest) F := by
  by_cases hglobal : word = "global"
  · subst hglobal
    refine (keywordIf_takes "global").andRefuse (s := [.word "global"]) fun _ => ?_
    exact Refuses.bind ((keyword_refuses fun _ hnext => hnext).before hrest)
  · refine (usingDirective_refuses (F := (· = some (.word word))) ?_).before fun _ _ => rfl
    rintro _ rfl
    exact ⟨by simpa using hglobal, by simpa using hword⟩

/-- The words that begin a type declaration. -/
def typeWords : List String := ["ref", "class", "struct", "interface", "enum", "record"]

lemma noRef_passes (h : ∀ next, F next → next ≠ some (.word "ref")) : Takes (optional do
      keyword "ref"
      let _ ← keywordIf "partial"
      if ← atKeyword "struct" then pure () else failure) [] F fun _ found => found = none :=
  TakesTo.optional_none (keyword_refuses h).bind

lemma typeKeyword_refuses (h : ∀ word, F (some (.word word)) → word ∉ typeWords) : Refuses typeKeyword [] F := by
  refine (noRef_passes fun next hnext heq => ?_).look_refuse fun _ _ => ?_
  · exact h "ref" (heq ▸ hnext) (by decide)
  refine .nil fun rest stop declared _ hnext => ?_
  cases rest with
  | nil => rfl
  | cons token rest =>
    have hrun : (nextIf (·.kind == .word)).run ⟨token :: rest, stop, declared⟩ =
        if token.kind == .word then some (token, ⟨rest, token.stop, declared⟩) else none := by
      change (if _ then _ else _ : Reader Token).run _ = _
      split <;> rfl
    rw [StateT.run_bind, hrun]
    split
    · rename_i hkind
      have hword : ∀ word ∈ typeWords, token.text ≠ word := by
        rintro word hmem rfl
        refine h token.text ?_ hmem
        rwa [List.head?_cons, Option.map_some, Token.lexeme, beq_iff_eq.mp hkind] at hnext
      simp only [Option.bind_eq_bind, Option.bind_some]
      split
      · exact absurd ‹_› (hword "class" (by decide))
      · exact absurd ‹_› (hword "struct" (by decide))
      · exact absurd ‹_› (hword "interface" (by decide))
      · exact absurd ‹_› (hword "enum" (by decide))
      · exact absurd ‹_› (hword "record" (by decide))
      · rfl
    · rfl

/-- No type declaration begins here. -/
def NoDecl (next : Option Lexeme) : Prop :=
  next ≠ some (.mark "[") ∧ ∀ word, next = some (.word word) → word ∉ modifiers ++ typeWords

lemma typeDecl_refuses {body : Reader (List MemberTree)} (h : ∀ next, F next → NoDecl next) :
    Refuses (typeDecl g body) [] F := by
  refine Refuses.bind (Refuses.withDeclText ?_)
  refine (attributeLists_passes (F := F) fun next hnext => (h next hnext).1).look_refuse fun _ _ => ?_
  refine (modifiers_pass (F := F) fun word hnext => ?_).look_refuse fun _ _ => ?_
  · exact fun hmem => (h _ hnext).2 word rfl (List.mem_append_left _ hmem)
  · exact (typeKeyword_refuses fun word hnext hmem => (h _ hnext).2 word rfl (List.mem_append_right _ hmem)).bind

end TypeAtlas.Source.Reader

namespace TypeAtlas

variable {member : PlanMember} {g : Grammar} {Q : MemberDraft → Prop}

open Source Source.Reader

variable {decls : List PlanDecl} {scope : PlanScope} {depth : Nat} {F : Option Lexeme → Prop} {next : Option Lexeme}

/-! Modifiers before a type. -/

/-- Words that stand before a type and are no part of it. -/
def PlainModifiers (words : List String) : Prop := ∀ word ∈ words, word ∈ modifiers ∧ word ≠ "file"

lemma PlainModifiers.nil : PlainModifiers [] := nofun

/-- Words one behind the other. -/
abbrev wordSpelling (words : List String) : List Lexeme := words.flatMap fun word => [.word word]

section Modifiers

variable {words : List String} {s : List Lexeme} (hwords : PlainModifiers words)

lemma modified_ne_bracket (hs : ∀ next, upcoming s next ≠ some (.mark "[")) (next : Option Lexeme) :
    upcoming (wordSpelling words ++ s) next ≠ some (.mark "[") := by
  cases words with
  | nil => exact hs next
  | cons word words => simp

include hwords

lemma modifiers_take (hF : ∀ word, F (some (.word word)) → word ∉ modifiers) :
    Takes (many modifier) (wordSpelling words) F fun _ _ => True := by
  refine (TakesTo.many (p := modifier) (F := fun _ => True) (T := fun _ _ => True) (fun word hword => ?_)
    (fun _ _ => ⟨by simp, trivial⟩) (fun _ _ => trivial) (words_refuse hF).bind).imp fun _ _ _ => trivial
  obtain ⟨hmem, hfile⟩ := hwords word hword
  have htake : Takes (nextIf fun token => token.kind == .word && modifiers.contains token.text) [.word word]
      (fun _ => True) fun _ token => token.text ≠ "file" := by
    refine (nextIf_takes fun token htoken => ?_).imp fun _ token htoken => ?_
    · rw [show token.kind = .word from congrArg Lexeme.kind htoken, show token.text = word from congrArg Lexeme.text htoken]
      simpa using hmem
    · rwa [show token.text = word from congrArg Lexeme.text htoken.2]
  refine htake.bind_nil fun _ token htoken => ?_
  simp only [beq_false_of_ne htoken, Bool.false_eq_true, if_false]
  exact .pure trivial

/-- No type is declared where the modifiers are those of a member. -/
lemma typeDecl_refuses_modified (hs : ∀ next, StartsType (upcoming s next))
    {body : Reader (List MemberTree)} : Refuses (typeDecl g body) (wordSpelling words ++ s) F := by
  refine Refuses.bind (Refuses.withDeclText ?_)
  refine (attributeLists_passes (F := (· ≠ some (.mark "["))) fun _ hnext => hnext).refuse (s := []) (fun _ _ _ => ?_)
    fun next _ => modified_ne_bracket (fun next => (hs next).ne_mark "[") next
  refine (modifiers_take (F := StartsType) hwords fun _ hstart => hstart.notMem (by decide) rfl).refuse
    (fun _ _ _ => Refuses.bind ?_) fun next _ => hs next
  exact (typeKeyword_refuses fun _ hstart => hstart.notMem (by decide) rfl).before fun next _ => hs next

end Modifiers

/-! Members. -/

lemma memberWords_pass : Takes (atAnyKeyword memberWords) [] StartsType fun _ found => found = false :=
  atAnyKeyword_passes fun _ hstart => hstart.notMem (by decide) rfl

/-- How a property is written. -/
def propertySpelling (type : List Lexeme) (name : String) (getter setter : Bool) : List Lexeme :=
  type ++ ([.word name] ++ (PlanParam.names [] ++ ([.mark "\x7b"] ++
    ((accessorWords getter setter).flatMap (fun word => [.word word, .mark ";"]) ++ [.mark "\x7d"]))))

/-- How a method is written. -/
def methodSpelling (type : List Lexeme) (name : String) (generics : List PlanParam) (params clauses : List Lexeme) :
    List Lexeme :=
  type ++ ([.word name] ++ (PlanParam.names generics ++ (([.mark "("] ++ (params ++ [.mark ")"])) ++
    (clauses ++ [.mark ";"]))))

/-- Lexemes that begin with a type and are no using directive. -/
def BeginsMember (s : List Lexeme) : Prop :=
  ∃ word rest, s = .word word :: rest ∧ StartsType (some (.word word)) ∧ ∀ next, upcoming rest next ≠ some (.word "using")

lemma optional_typeParams {generics : List PlanParam}
    (hnames : ∀ param ∈ generics, isPlainName param.name = true) :
    Takes (Reader.optional (typeParams g)) (PlanParam.names generics) (· ≠ some (.mark "<")) fun _ found =>
      found.getD [] = generics.map PlanParam.name := by
  by_cases hne : generics = []
  · subst hne
    exact (TakesTo.optional_none (mark_refuses fun _ hnext => hnext).bind).imp fun _ _ h => by rw [h]; rfl
  · refine (typeParams_takes hne hnames).optional_some.imp ?_
    rintro _ _ ⟨_, rfl, rfl⟩
    rfl

section Typed

variable {type : List Lexeme} {tree : TypeTree} (h : ReadsAs type tree) {name : String}
  (hname : isPlainName name = true) {generics : List PlanParam}

include h hname

lemma typedMember_takes (hdepth : type.length ≤ depth)
    (hnames : ∀ param ∈ generics, isPlainName param.name = true) {t : List Lexeme}
    (hnext : ∀ next, F next → EndsName (upcoming t next)) {attributes : List AttributeList}
    (hrest : Takes (do
      if (← atMark "(") || (← atMark "<") then methodRest (grammar depth) attributes tree name
      else propertyRest (grammar depth) attributes tree name) (PlanParam.names generics ++ t) F fun _ found => Q found) :
    Takes (typedMember (grammar depth) attributes) (type ++ ([.word name] ++ (PlanParam.names generics ++ t))) F
      fun _ found => Q found := by
  refine memberWords_pass.look_eq ?_ fun next _ => h.starts _ next
  refine (ahead_takes _).look_any fun _ => ?_
  refine (h.takes hdepth).bind (fun _ tree htree => ?_) fun _ _ => endsType_word name
  subst htree
  obtain ⟨depth, rfl⟩ := h.exists_depth hdepth
  refine (interfaceQualifier_passes hnames hnext depth).bind fun _ _ => ?_
  refine (atAnyKeyword_other (notMem_keywords hname (by decide))).look_eq ?_ fun _ _ => rfl
  refine (name_takes name).andThen fun _ found hfound => ?_
  subst hfound
  exact hrest

lemma property_takes (getter setter : Bool) (hdepth : (propertySpelling type name getter setter).length ≤ depth) :
    Takes (typedMember (grammar depth) []) (propertySpelling type name getter setter) (· ≠ some (.mark "="))
      fun _ draft => draft = .property [] tree name getter setter := by
  rw [propertySpelling, List.length_append] at hdepth
  refine typedMember_takes h hname (by omega) (by simp) (fun _ _ => ?_) ?_
  · exact (endsType_mark (by decide)).endsName
  refine (atMark_other (show "(" ≠ "\x7b" by decide)).look_eq ?_ fun _ _ => rfl
  refine (atMark_other (show "<" ≠ "\x7b" by decide)).look_eq ?_ fun _ _ => rfl
  refine (markIf_other (show "=>" ≠ "\x7b" by decide)).look_eq ?_ fun _ _ => rfl
  have hwords : ∀ word ∈ accessorWords getter setter, word ∉ modifiers := by
    cases getter <;> cases setter <;> decide
  refine (accessors_take hwords).bind_nil fun _ names hnames => ?_
  subst hnames
  refine (TakesTo.optional_none (mark_refuses fun _ hnext => hnext).bind).bind_pure fun _ _ _ => ?_
  cases getter <;> cases setter <;> rfl

lemma method_takes (hnames : ∀ param ∈ generics, isPlainName param.name = true) {params clauses : List Lexeme}
    {T : List ParameterTree → Prop} {constraints : List ConstraintTree}
    (hparams : Takes (Reader.params (grammar depth)) ([.mark "("] ++ (params ++ [.mark ")"])) (fun _ => True) fun _ => T)
    (hclauses : Takes (many (Reader.constraints (grammar depth))) clauses (· = some (.mark ";")) fun _ found =>
      found = constraints) (hdepth : type.length ≤ depth) :
    Takes (typedMember (grammar depth) []) (methodSpelling type name generics params clauses) F fun _ draft =>
      ∃ trees, T trees ∧ draft = .method [] tree name (generics.map PlanParam.name) trees constraints := by
  refine typedMember_takes h hname hdepth hnames (fun _ _ => ?_) ?_
  · exact (endsType_mark (by decide)).endsName
  have hrest : Takes (methodRest (grammar depth) [] tree name) (PlanParam.names generics ++
      (([.mark "("] ++ (params ++ [.mark ")"])) ++ (clauses ++ [.mark ";"]))) F fun _ draft =>
        ∃ trees, T trees ∧ draft = .method [] tree name (generics.map PlanParam.name) trees constraints := by
    refine (optional_typeParams hnames).bind (fun _ found hfound => ?_) fun _ _ => by simp
    refine hparams.bind (fun _ trees htrees => ?_) fun _ _ => trivial
    refine hclauses.bind (fun _ clauses hclauses => ?_) fun _ _ => rfl
    exact functionBody_semicolon.bind_pure fun _ _ _ => ⟨trees, htrees, by rw [hfound, hclauses]⟩
  by_cases hne : generics = []
  · refine (atMark_finds "(").look_eq ?_ fun _ _ => by rw [hne]; rfl
    exact (atMark_looks "<").look_any fun _ => hrest
  · have hopen : ∀ t next, upcoming (PlanParam.names generics ++ t) next = some (.mark "<") := by
      intro t next
      rw [PlanParam.names, angled_map hne]
      rfl
    refine (atMark_other (show "(" ≠ "<" by decide)).look_eq ?_ fun _ _ => hopen _ _
    refine (atMark_finds "<").look_eq ?_ fun _ _ => hopen _ _
    exact hrest

lemma ReadsAs.beginsMember (t : List Lexeme) : BeginsMember (type ++ .word name :: t) := by
  obtain ⟨word, rest, rfl, hstart, hmark⟩ := h.head
  refine ⟨word, rest ++ .word name :: t, rfl, hstart, fun next heq => ?_⟩
  rw [upcoming_append, upcoming_cons, upcoming, Option.or_eq_some_iff] at heq
  rcases heq with heq | ⟨-, heq⟩
  · cases (hmark _ heq).1
  · exact ne_of_isPlainName hname (show "using" ∈ keywords by decide) (congrArg Lexeme.text (Option.some.inj heq))

end Typed

lemma usingDirective_refuses_modified {words : List String} (hwords : PlainModifiers words)
    {s : List Lexeme} (hs : BeginsMember s) : Refuses (usingDirective g) (wordSpelling words ++ s) F := by
  cases words with
  | nil =>
    obtain ⟨word, rest, rfl, hstart, hrest⟩ := hs
    have hword : word ∉ ["using"] := hstart.notMem (by decide) rfl
    exact usingDirective_refuses_words (fun heq => hword (by simp [heq])) fun next _ => hrest next
  | cons first words =>
    have hnot : ∀ text ∈ modifiers, text ≠ "global" ∧ text ≠ "using" := by decide
    refine (usingDirective_refuses (F := (· = some (.word first))) ?_).before fun _ _ => rfl
    rintro _ rfl
    have hfirst := hnot first (hwords first List.mem_cons_self).1
    exact ⟨fun heq => hfirst.1 (congrArg Lexeme.text (Option.some.inj heq)),
      fun heq => hfirst.2 (congrArg Lexeme.text (Option.some.inj heq))⟩

/-- A member with modifiers before it, which is neither a delegate nor an event. -/
lemma member_takes {after : Option TypeTree → Option TypeTree} {words : List String} (hwords : PlainModifiers words)
    {s : List Lexeme} (hs : BeginsMember s) (h : TakesTo after (typedMember (grammar depth) [] <|> do
      constructor (grammar depth) <|> destructor (grammar depth) <|> operatorMember (grammar depth) <|>
        indexer (grammar depth) <|> fields (grammar depth)
      return .other) s F fun _ => Q) (n : Nat) :
    TakesTo after (Reader.member (grammar depth) (n + 1)) (wordSpelling words ++ s) F fun tokens found =>
      ∃ draft, Q draft ∧ found = draft.place (textOf tokens) (spanOf tokens) := by
  have husing := usingDirective_refuses_modified (F := F) (g := grammar depth) hwords hs
  obtain ⟨word, rest, rfl, hstart, -⟩ := hs
  have hbegins : ∀ next, StartsType (upcoming (.word word :: rest) next) := fun _ => hstart
  have hkeyword : ∀ text ∈ ["delegate", "event"], Refuses (keyword text) (.word word :: rest) F := by
    intro text htext
    refine Refuses.before (F := StartsType) (keyword_refuses ?_) fun _ _ => hstart
    rintro _ hnext rfl
    exact hnext.notMem (by decide) rfl htext
  refine TakesTo.orElse_right husing.bind ?_
  refine TakesTo.orElse_right (typeDecl_refuses_modified hwords hbegins).bind ?_
  refine TakesTo.orElse_left ((TakesTo.withDeclText (Q := fun _ => Q) ?_ (by simp)).bind_nil ?_)
  · refine (attributeLists_passes (F := (· ≠ some (.mark "["))) fun _ hnext => hnext).look_eq ?_
      fun next _ => modified_ne_bracket (fun next => (hbegins next).ne_mark "[") next
    refine (modifiers_take (F := StartsType) hwords fun _ hstart => hstart.notMem (by decide) rfl).bind
      (fun _ _ _ => ?_) fun _ _ => hstart
    exact TakesTo.orElse_right (Refuses.bind ((hkeyword "delegate" (by decide)).bind.orElse
      (hkeyword "event" (by decide)).bind)) h
  · rintro tokens ⟨draft, text, span⟩ ⟨hdraft, hplace⟩
    cases hplace
    exact .pure ⟨draft, hdraft, rfl⟩

/-! Members of a plan. -/

lemma PlanMember.spelling_property (decls : List PlanDecl) (scope : PlanScope) (name : String) (type : PlanType)
    (getter setter : Bool) : (PlanMember.property name type getter setter).spelling decls scope =
      propertySpelling (type.spelling decls scope) name getter setter := by
  simp [PlanMember.spelling, propertySpelling, PlanParam.names, angled]

lemma PlanMember.spelling_method (decls : List PlanDecl) (scope : PlanScope) (name : String)
    (generics : List PlanParam) (returns : PlanType) (params : List (String × PlanType)) :
    (PlanMember.method name generics returns params).spelling decls scope =
      methodSpelling (returns.spelling decls (scope.inMethod generics)) name generics
        (commas (paramSpelling decls (scope.inMethod generics)) params)
        ((PlanParam.constrained generics).flatMap (PlanParam.spelling decls (scope.inMethod generics))) := by
  simp [PlanMember.spelling, methodSpelling]

/-- What is read of a member, besides its place. -/
def PlanMember.ReadAs (decls : List PlanDecl) (scope : PlanScope) : PlanMember → MemberTree → Prop
  | .property name type getter setter, .property tree =>
    tree.attributes = [] ∧ tree.type = type.tree decls scope ∧ tree.name = name ∧ tree.getter = getter ∧
      tree.setter = setter
  | .method name generics returns params, .method tree =>
    let scope := scope.inMethod generics
    tree.attributes = [] ∧ tree.returns = returns.tree decls scope ∧ tree.name = name ∧
      tree.typeParams = generics.map PlanParam.name ∧ List.Forall₂ (ParamRead decls scope) params tree.params ∧
      tree.constraints = (PlanParam.constrained generics).map (PlanParam.clause decls scope)
  | _, _ => False

/-- What is read of a member before its place in the text is known. -/
def PlanMember.Drafts (decls : List PlanDecl) (scope : PlanScope) (member : PlanMember) (draft : MemberDraft) : Prop :=
  ∀ text span, ∃ tree, draft.place text span = some tree ∧ member.ReadAs decls scope tree

lemma PlanMember.spelling_begins (hscope : scope.Named decls) (hfits : member.Fits scope) :
    BeginsMember (member.spelling decls scope) := by
  cases member with
  | property name type getter setter =>
    rw [spelling_property]
    exact (PlanType.readsAs hscope (PlanType.inScope_of_fits hfits.2.1)).beginsMember hfits.1 _
  | method name generics returns params =>
    rw [spelling_method]
    have hinner := hscope.inMethod fun param hparam => (hfits.2.1.2.2 param hparam).1
    exact (PlanType.readsAs hinner (PlanType.inScope_of_fitsReturn hfits.2.2.1)).beginsMember hfits.1 _

lemma PlanMember.typed_takes (hscope : scope.Named decls) (hfits : member.Fits scope)
    (hdepth : (member.spelling decls scope).length ≤ depth) :
    Takes (typedMember (grammar depth) []) (member.spelling decls scope) (· ≠ some (.mark "=")) fun _ draft =>
      member.Drafts decls scope draft := by
  cases member with
  | property name type getter setter =>
    obtain ⟨hname, htype, -⟩ := hfits
    rw [spelling_property] at hdepth ⊢
    refine (property_takes (PlanType.readsAs hscope (PlanType.inScope_of_fits htype)) hname getter setter hdepth).imp ?_
    rintro _ _ rfl text span
    exact ⟨_, rfl, rfl, rfl, rfl, rfl, rfl⟩
  | method name generics returns params =>
    obtain ⟨hname, ⟨-, -, hgenerics⟩, hreturns, -, hparams⟩ := hfits
    have hnames : ∀ param ∈ generics, isPlainName param.name = true := fun param hparam => (hgenerics param hparam).1
    have hinner : (scope.inMethod generics).Named decls := hscope.inMethod hnames
    rw [spelling_method] at hdepth ⊢
    simp only [methodSpelling, List.length_append] at hdepth
    refine (method_takes (PlanType.readsAs hinner (PlanType.inScope_of_fitsReturn hreturns)) hname hnames
      (params_take Prod.fst (fun param hparam => PlanType.readsAs hinner
        (PlanType.inScope_of_fits (hparams param hparam).2)) (show (commas (paramSpelling _ _) _).length ≤ _ by omega))
      (clauses_take hinner (fun param hparam => (hgenerics param hparam).2) (by omega)) (by omega)).imp ?_
    rintro _ _ ⟨trees, htrees, rfl⟩ text span
    exact ⟨_, rfl, rfl, rfl, rfl, rfl, htrees, rfl⟩

lemma PlanMember.takes (hscope : scope.Named decls) (hfits : member.Fits scope)
    (hdepth : (member.spelling decls scope).length ≤ depth) (n : Nat) :
    Takes (Reader.member (grammar depth) (n + 1)) (member.spelling decls scope) (· ≠ some (.mark "=")) fun _ found =>
      ∃ tree, found = some tree ∧ member.ReadAs decls scope tree := by
  refine (member_takes .nil (spelling_begins hscope hfits)
    (TakesTo.orElse_left (typed_takes hscope hfits hdepth)) n).imp ?_
  rintro tokens _ ⟨draft, hdraft, rfl⟩
  exact hdraft (textOf tokens) (spanOf tokens)

/-! The end of a body. -/

/-- A closing brace stands here. -/
def AtClosing (next : Option Lexeme) : Prop := next = some (.mark "\x7d")

lemma AtClosing.ne_word (h : AtClosing next) (text : String) : next ≠ some (.word text) := by
  obtain rfl := h
  simp

lemma AtClosing.noDecl (h : AtClosing next) : NoDecl next := by
  obtain rfl := h
  exact ⟨by decide, by simp⟩

lemma keyword_refuses_closing (text : String) : Refuses (keyword text) [] AtClosing :=
  keyword_refuses fun _ hnext => hnext.ne_word text

lemma atAnyKeyword_closing (texts : List String) : Takes (atAnyKeyword texts) [] AtClosing fun _ found => found = false :=
  atAnyKeyword_passes fun text hnext => absurd rfl (hnext.ne_word text)

lemma type_refuses_closing (depth : Nat) : Refuses (grammar depth).type [] AtClosing := by
  refine (grammar_type_refuses depth).follow ?_
  rintro _ rfl
  exact noType_mark (by decide)

lemma name_refuses_closing : Refuses name [] AtClosing :=
  name_refuses fun text hnext => hnext.ne_word text rfl

/-- No variables are declared where no type begins. -/
lemma typedNames_refuses {F : Option Lexeme → Prop} (h : Refuses g.type [] F) (reserved : List String) :
    Refuses (typedNames g reserved) [] F :=
  get_looks.andRefuse fun _ => h.bind

lemma guarded_refuses {α : Type} {p : Reader α} (h : Refuses p [] AtClosing) :
    Refuses (do
      if (← atAnyKeyword memberWords) && !(← ahead [isWord "delegate", isMark "*"]) then failure
      p) [] AtClosing := by
  refine (atAnyKeyword_closing memberWords).look_refuse_eq ?_
  exact (ahead_takes _).andRefuse fun _ => h

lemma member_refuses (depth n : Nat) : Refuses (Reader.member (grammar depth) n) [] AtClosing := by
  cases n with
  | zero => exact Refuses.failure
  | succ n =>
    refine Refuses.orElse (usingDirective_refuses fun _ hnext => ⟨hnext.ne_word _, hnext.ne_word _⟩).bind ?_
    refine Refuses.orElse (typeDecl_refuses fun _ hnext => hnext.noDecl).bind ?_
    refine Refuses.orElse (Refuses.bind (Refuses.withDeclText ?_)) (keyword_refuses_closing "namespace").bind.bind
    refine (attributeLists_passes (F := AtClosing) fun _ hnext => hnext.noDecl.1).look_refuse fun _ _ => ?_
    refine (modifiers_pass (F := AtClosing) fun text hnext => absurd rfl (hnext.ne_word text)).look_refuse
      fun _ _ => ?_
    refine Refuses.orElse (Refuses.bind ((keyword_refuses_closing "delegate").bind.orElse
      (keyword_refuses_closing "event").bind)) ?_
    have hnames := typedNames_refuses (type_refuses_closing depth) namelessWords
    refine Refuses.orElse (guarded_refuses (type_refuses_closing depth).bind) (Refuses.bind ?_)
    refine Refuses.orElse name_refuses_closing.bind ?_
    refine Refuses.orElse (mark_refuses_other (by decide)).bind ?_
    refine Refuses.orElse ?_ (Refuses.orElse (type_refuses_closing depth).bind (guarded_refuses hnames.bind))
    refine (atAnyKeyword_closing ["implicit", "explicit"]).look_refuse_eq ?_
    exact (type_refuses_closing depth).bind

end TypeAtlas
