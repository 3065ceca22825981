import TypeAtlas.Origin
import TypeAtlas.Proofs.MemberReading

/-!
Reading whole plans. Main statement: a text that spells a plan is well-formed, and what is
read of it are the declarations of the plan in their namespaces, each with the tokens it was
read from.
-/

namespace TypeAtlas.Source.Reader

variable {F : Option Lexeme → Prop} {parts : List String} {g : Grammar}

lemma closingSemicolon_passes (h : ∀ next, F next → next ≠ some (.mark ";")) :
    Takes closingSemicolon [] F fun _ _ => True := by
  refine .nil fun rest stop declared _ hnext => ⟨(), ?_, trivial⟩
  cases rest with
  | nil => rfl
  | cons token rest =>
    unfold closingSemicolon adjacentMark
    simp only [StateT.run_bind, StateT.run_get, Option.pure_def, Option.bind_eq_bind, Option.bind_some,
      isMark_eq_false (h _ hnext), Bool.false_and, Bool.false_eq_true, if_false]
    rfl

lemma typeKeyword_takes (kind : Kind) :
    Takes typeKeyword [.word kind.word] F fun _ found => found = (kind.node, [kind.word]) := by
  have hword : "ref" ≠ kind.word := by cases kind <;> decide
  refine (noRef_passes (ne_of_text_ne hword)).look (fun _ _ => ?_) fun _ _ => rfl
  refine (anyWord_takes kind.word).bind_nil fun _ token htoken => ?_
  rw [htoken]
  cases kind <;> exact .pure rfl

/-- A name with dots that has no arguments. -/
lemma typeName_path (hne : parts ≠ [])
    (hparts : ∀ part ∈ parts, isPlainName part = true) :
    Takes (typeName g) (pathSpelling parts) EndsName fun _ _ => True := by
  obtain ⟨init, last, rfl⟩ := List.eq_nil_or_concat' parts |>.resolve_left hne
  have hbare : Takes (simpleType g last) [] EndsName fun _ found => found = .simple last :=
    (simpleType_bare last).follow fun _ hnext => hnext "<" (by decide)
  have hname := typeName_takes (fun part hpart => isIdentifier_of_isPlainName (hparts part hpart)) hbare
    fun _ hnext => hnext "::" (by decide)
  rw [List.append_nil] at hname
  exact hname.imp fun _ _ _ => trivial

lemma namespaceName_takes (hne : parts ≠ [])
    (hparts : ∀ part ∈ parts, isPlainName part = true) :
    Takes (namespaceName g) ([.word "namespace"] ++ pathSpelling parts) EndsName fun _ found =>
      found = Text.joinWith "." parts := by
  refine (keyword_takes "namespace").andThen fun _ _ _ => ?_
  have hspelling : pathSpelling parts ≠ [] := by
    obtain ⟨first, rest, rfl⟩ := List.exists_cons_of_ne_nil hne
    simp [pathSpelling]
  refine ((typeName_path hne hparts).withText hspelling).spelled.bind_nil ?_
  rintro tokens ⟨_, _⟩ ⟨⟨-, rfl⟩, hread, hplain⟩
  exact .pure (cleanName_textOf hplain (fun part hpart => isIdentifier_of_isPlainName (hparts part hpart)) hread)

end TypeAtlas.Source.Reader

namespace TypeAtlas

open Source Source.Reader

variable {decls : List PlanDecl} {scope : PlanScope} {depth : Nat} {F : Option Lexeme → Prop} {next : Option Lexeme}

lemma forall₂_filterMap_id {α β : Type} {T : α → β → Prop} {items : List α} {found : List (Option β)}
    (h : List.Forall₂ (fun i x => ∃ y, x = some y ∧ T i y) items found) : List.Forall₂ T items (found.filterMap id) := by
  induction h with
  | nil => exact .nil
  | cons hfirst _ ih =>
    obtain ⟨y, rfl, hy⟩ := hfirst
    exact .cons hy ih

section Body

variable {after : Option TypeTree → Option TypeTree} {g : Grammar} {words : List String} (hwords : PlainModifiers words)

/-- Members in braces. -/
lemma typeBody_takes {s : List Lexeme} {n : Nat} {Q : List Token → List (Option MemberTree) → Prop}
    (h : TakesTo after (many (Reader.member g n)) s AtClosing Q) :
    TakesTo after (typeBody g (n + 1)) ([.mark "\x7b"] ++ (s ++ [.mark "\x7d"])) F fun tokens members =>
      ∃ front inner back found, tokens = front ++ (inner ++ back) ∧ inner.map Token.lexeme = s ∧ back.length = 1 ∧
        Q inner found ∧ members = found.filterMap id := by
  refine (mark_takes "\x7b").andThen fun front _ _ => ?_
  refine h.spelled.before (fun inner found hfound => ?_) fun _ _ => rfl
  refine (mark_takes "\x7d").spelled.bind_pure fun back _ hback => ?_
  have hlength := congrArg List.length hback.2.1
  rw [List.length_map] at hlength
  exact ⟨front, inner, back, found, rfl, hfound.2.1, hlength, hfound.1, rfl⟩

include hwords

/-- A type whose body is read by `body`. -/
lemma typeDecl_takes {kind : Kind} (hkind : kind ≠ .enumType) (name : String) {header inner : List Lexeme}
    {parts : List HeaderPart} {body : Reader (List MemberTree)} {Q : List Token → List MemberTree → Prop}
    (hheader : Takes (many (headerPart g (kind.node != .interfaceNode))) header (· = some (.mark "\x7b")) fun _ found =>
      found = parts) (hbody : TakesTo after body ([.mark "\x7b"] ++ inner) (· ≠ some (.mark ";")) Q) :
    TakesTo after (typeDecl g body) (wordSpelling words ++ ([.word kind.word] ++ ([.word name] ++
        (header ++ ([.mark "\x7b"] ++ inner))))) (· ≠ some (.mark ";")) fun tokens tree =>
      ∃ front back members, tokens = front ++ back ∧ Q back members ∧
        tree = ⟨spanOf tokens, textOf tokens, kind.node, [kind.word], [], name, HeaderPart.names parts,
          HeaderPart.clauses parts, HeaderPart.baseTypes parts, members⟩ := by
  have hnode : kind.node ≠ .enumNode := by
    cases kind with
    | enumType => exact absurd rfl hkind
    | _ => decide
  have hmembers := hbody.bind_nil (f := fun members => do
      closingSemicolon
      return members)
    fun _ members hmembers => (closingSemicolon_passes fun _ hnext => hnext).bind_pure fun _ _ _ => hmembers
  have hword : kind.word ∉ modifiers := by cases kind <;> decide
  refine (TakesTo.withDeclText (Q := fun tokens make => ∃ front back members, tokens = front ++ back ∧ Q back members ∧
    make = fun text span => (⟨span, text, kind.node, [kind.word], [], name, HeaderPart.names parts, HeaderPart.clauses parts,
      HeaderPart.baseTypes parts, members⟩ : DeclTree)) ?_ (by simp)).bind_nil ?_
  · refine (attributeLists_passes (F := (· ≠ some (.mark "["))) fun _ hnext => hnext).look_eq ?_
      fun next _ => modified_ne_bracket (fun _ => by simp) next
    refine (modifiers_take (F := (· = some (.word kind.word))) hwords (by simpa using hword)).bind (fun front _ _ => ?_)
      fun _ _ => rfl
    refine (typeKeyword_takes kind).andThen fun keywords found hfound => ?_
    subst hfound
    dsimp only
    rw [if_neg hnode]
    refine (name_takes name).andThen fun title found hname => ?_
    subst hname
    refine hheader.bind (fun titles found hparts => ?_) fun _ _ => rfl
    subst hparts
    refine TakesTo.bind_pure (TakesTo.orElse_right (Refuses.bind ?_) hmembers) fun back members hread => ?_
    · exact (mark_refuses_other (show ";" ≠ "\x7b" by decide)).before fun _ _ => rfl
    · exact ⟨front ++ (keywords ++ (title ++ titles)), back, members, by simp, hread, rfl⟩
  · rintro tokens ⟨make, text, span⟩ ⟨⟨front, back, members, htokens, hread, rfl⟩, hplace⟩
    cases hplace
    exact .pure ⟨front, back, members, htokens, hread, rfl⟩

end Body

lemma body_takes (hscope : scope.Named decls) {members : List PlanMember} (hfits : ∀ member ∈ members, member.Fits scope)
    (hdepth : (members.flatMap (PlanMember.spelling decls scope)).length ≤ depth) (n : Nat) :
    Takes (typeBody (grammar depth) (n + 2))
      ([.mark "\x7b"] ++ (members.flatMap (PlanMember.spelling decls scope) ++ [.mark "\x7d"])) F fun _ found =>
        List.Forall₂ (PlanMember.ReadAs decls scope) members found := by
  have htake : ∀ member ∈ members, Takes (Reader.member (grammar depth) (n + 1)) (member.spelling decls scope)
      (· ≠ some (.mark "=")) fun _ found => ∃ tree, found = some tree ∧ member.ReadAs decls scope tree := by
    intro member hmember
    have hle : (member.spelling decls scope).length ≤ (members.flatMap (PlanMember.spelling decls scope)).length :=
      (List.sublist_flatten_of_mem (List.mem_map_of_mem hmember)).length_le
    exact PlanMember.takes hscope (hfits member hmember) (by omega) n
  refine (typeBody_takes (TakesTo.many (G := AtClosing) htake (fun member hmember => ?_) ?_
    (member_refuses depth (n + 1)))).imp ?_
  · obtain ⟨word, rest, hspelling, -, -⟩ := PlanMember.spelling_begins hscope (hfits member hmember)
    rw [hspelling]
    exact ⟨by simp, by simp⟩
  · rintro _ rfl
    decide
  · rintro _ _ ⟨_, _, _, found, -, -, -, hfound, rfl⟩
    exact forall₂_filterMap_id hfound

lemma declarationKind_node (kind : Kind) : kind.node.declarationKind [kind.word] = kind := by
  cases kind <;> rfl

/-- What is read of a declaration. -/
structure PlanDecl.ReadAs (decls : List PlanDecl) (d : PlanDecl) (tree : DeclTree) : Prop where
  kind : tree.kind = d.kind
  attributes : tree.attributes = []
  name : tree.name = d.name
  typeParams : tree.typeParams = d.typeParams
  constraints : tree.constraints =
    (PlanParam.constrained d.generics).map (PlanParam.clause decls (d.scope (decls.map PlanDecl.arity)))
  bases : tree.bases = d.bases.map (PlanType.tree decls (d.scope (decls.map PlanDecl.arity)))
  members : List.Forall₂ (PlanMember.ReadAs decls (d.scope (decls.map PlanDecl.arity))) d.members tree.members

variable {d : PlanDecl}

lemma PlanDecl.spelling_eq (decls : List PlanDecl) (d : PlanDecl) :
    d.spelling decls = [.word d.kind.word] ++ ([.word d.name] ++ (d.headerSpelling decls ++ ([.mark "\x7b"] ++
      (d.members.flatMap (PlanMember.spelling decls (d.scope (decls.map PlanDecl.arity))) ++ [.mark "\x7d"])))) := by
  simp [PlanDecl.spelling]

lemma PlanDecl.takes (hscope : (d.scope (decls.map PlanDecl.arity)).Named decls)
    (hfits : d.Fits (decls.map PlanDecl.arity)) (hdepth : (d.spelling decls).length ≤ depth) (n : Nat) :
    Takes (typeDecl (grammar depth) (typeBody (grammar depth) (n + 2))) (d.spelling decls) (· ≠ some (.mark ";"))
      fun _ => d.ReadAs decls := by
  rw [spelling_eq] at hdepth ⊢
  simp only [List.length_append] at hdepth
  refine (typeDecl_takes .nil hfits.kind d.name (header_takes hscope hfits.header (by omega) _)
    (body_takes hscope hfits.members (by omega) n)).imp ?_
  rintro tokens _ ⟨_, _, _, -, hread, rfl⟩
  exact ⟨declarationKind_node d.kind, rfl, rfl, names_headerParts decls d, clauses_headerParts decls d, baseTypes_headerParts decls d, hread⟩

def PlanDecl.PlacedAs (decls : List PlanDecl) (d : PlanDecl) (item : Item) : Prop :=
  ∃ tree, d.ReadAs decls tree ∧ item = .namespaceBlock d.ns [.type tree]

lemma PlanDecl.placedSpelling_eq (decls : List PlanDecl) (d : PlanDecl) :
    d.placedSpelling decls = ([.word "namespace"] ++ pathSpelling d.spaces) ++ ([.mark "\x7b"] ++
      (d.spelling decls ++ [.mark "\x7d"])) := by
  simp [PlanDecl.placedSpelling]

lemma namespaceItem_refuses {g : Grammar} (h : ∀ next, F next → next ≠ some (.word "namespace")) (n : Nat) :
    Refuses (namespaceItem g n) [] F := by
  cases n with
  | zero => exact Refuses.failure
  | succ n => exact (keyword_refuses h).bind.bind

abbrev innerItem (g : Grammar) (n : Nat) : Reader Item :=
  usingItem g <|> namespaceItem g n <|> typeItem g n <|> (do
    let _ ← Reader.member g n
    return .other) <|> externAlias

/-- What stands in the namespace of a declaration is that declaration. -/
lemma inner_takes (hscope : (d.scope (decls.map PlanDecl.arity)).Named decls)
    (hfits : d.Fits (decls.map PlanDecl.arity)) (hdepth : (d.spelling decls).length ≤ depth) (n : Nat) :
    Takes (many (innerItem (grammar depth) (n + 2))) (d.spelling decls) AtClosing fun _ items =>
      ∃ tree, items = [.type tree] ∧ d.ReadAs decls tree := by
  have hword : ∀ word ∈ ["global", "using", "namespace"], some (Lexeme.word d.kind.word) ≠ some (.word word) := by
    cases d.kind <;> decide
  have hother : ∀ {α : Type} {p : Reader α}, Refuses p [] (· = some (.word d.kind.word)) →
      Refuses p (d.spelling decls) AtClosing := fun hp => hp.before fun _ _ => rfl
  have htake : Takes (innerItem (grammar depth) (n + 2)) (d.spelling decls) AtClosing fun _ item =>
      ∃ tree, item = .type tree ∧ d.ReadAs decls tree := by
    refine TakesTo.orElse_right (hother (usingDirective_refuses ?_)).bind
      (TakesTo.orElse_right (hother (namespaceItem_refuses ?_ _)) (TakesTo.orElse_left ?_))
    · rintro _ rfl
      exact ⟨hword "global" (by decide), hword "using" (by decide)⟩
    · rintro _ rfl
      exact hword "namespace" (by decide)
    · refine ((PlanDecl.takes hscope hfits hdepth n).follow ?_).bind_pure fun _ tree htree => ⟨tree, rfl, htree⟩
      rintro _ rfl
      decide
  have hstop : Refuses (innerItem (grammar depth) (n + 2)) [] AtClosing := by
    refine Refuses.orElse (usingDirective_refuses fun _ hnext => ⟨hnext.ne_word _, hnext.ne_word _⟩).bind ?_
    refine Refuses.orElse (namespaceItem_refuses (fun _ hnext => hnext.ne_word _) _) ?_
    refine Refuses.orElse (typeDecl_refuses fun _ hnext => hnext.noDecl).bind ?_
    exact Refuses.orElse (member_refuses depth (n + 2)).bind (keyword_refuses_closing "extern").bind
  refine (htake.many_one (by simp [PlanDecl.spelling]) (fun _ hnext => hnext) hstop).imp ?_
  rintro _ _ ⟨_, rfl, tree, rfl, hread⟩
  exact ⟨tree, rfl, hread⟩

lemma namespaceItem_takes (hscope : (d.scope (decls.map PlanDecl.arity)).Named decls)
    (hfits : d.Fits (decls.map PlanDecl.arity)) (hdepth : (d.placedSpelling decls).length ≤ depth) (n : Nat) :
    Takes (namespaceItem (grammar depth) (n + 3)) (d.placedSpelling decls) (· ≠ some (.mark ";")) fun _ => d.PlacedAs decls := by
  rw [PlanDecl.placedSpelling_eq] at hdepth ⊢
  simp only [List.length_append] at hdepth
  refine (namespaceName_takes hfits.spaces.1 hfits.spaces.2.2).bind (fun _ title htitle => ?_) fun _ _ => ?_
  · subst htitle
    refine (mark_takes "\x7b").andThen fun _ _ _ => ?_
    refine (inner_takes hscope hfits (by omega) n).bind (fun _ items hitems => ?_) fun _ _ => rfl
    obtain ⟨tree, rfl, hread⟩ := hitems
    refine (mark_takes "\x7d").bind_nil fun _ _ _ => ?_
    exact (closingSemicolon_passes fun _ hnext => hnext).bind_pure fun _ _ _ => ⟨tree, hread, rfl⟩
  · intro text htext heq
    cases heq
    simp at htext

/-! The end of a text. -/

/-- Nothing is left. -/
def AtEnd (next : Option Lexeme) : Prop := next = none

lemma AtEnd.ne (h : AtEnd next) (lexeme : Lexeme) : next ≠ some lexeme := by
  rw [h]
  simp

lemma AtEnd.noDecl (h : AtEnd next) : NoDecl next :=
  ⟨h.ne _, fun _ heq => absurd heq (h.ne _)⟩

lemma AtEnd.noOperand (h : AtEnd next) : NoOperand next :=
  fun lexeme heq => absurd heq (h.ne lexeme)

lemma keyword_refuses_end (text : String) : Refuses (keyword text) [] AtEnd :=
  keyword_refuses fun _ hnext => hnext.ne _

lemma name_refuses_end : Refuses name [] AtEnd := name_refuses fun _ hnext => hnext.ne _ rfl

lemma type_refuses_end (depth : Nat) : Refuses (grammar depth).type [] AtEnd :=
  (grammar_type_refuses depth).follow fun _ hnext => hnext.noOperand.noType

lemma atAnyKeyword_end (texts : List String) : Takes (atAnyKeyword texts) [] AtEnd fun _ found => found = false :=
  atAnyKeyword_passes fun _ hnext => absurd rfl (hnext.ne _)

lemma attributeLists_end (g : Grammar) : Takes (attributeLists g) [] AtEnd fun _ found => found = [] :=
  attributeLists_passes fun _ hnext => hnext.ne _

lemma modifiers_end : Takes (many modifier) [] AtEnd fun _ found => found = [] :=
  modifiers_pass fun _ hnext => absurd rfl (hnext.ne _)

lemma statement_refuses (depth : Nat) : Refuses (Reader.statement (grammar depth)) [] AtEnd := by
  refine (atMark_passes (F := AtEnd) fun _ hnext => hnext.ne _).look_refuse_eq ?_
  refine (markIf_passes (F := AtEnd) fun _ hnext => hnext.ne _).look_refuse_eq ?_
  refine (atAnyKeyword_end statementWords).look_refuse_eq ?_
  refine Refuses.orElse name_refuses_end.bind (Refuses.orElse name_refuses_end.bind (Refuses.orElse ?_ (Refuses.orElse ?_ ?_)))
  · refine (attributeLists_end _).look_refuse fun _ _ => ?_
    refine modifiers_end.look_refuse fun _ _ => ?_
    exact (type_refuses_end depth).bind
  · refine (keywordIf_passes (F := AtEnd) fun _ hnext => hnext.ne _).look_refuse fun _ _ => ?_
    refine (keywordIf_passes (F := AtEnd) fun _ hnext => hnext.ne _).look_refuse fun _ _ => ?_
    refine modifiers_end.look_refuse fun _ _ => ?_
    exact (typedNames_refuses (type_refuses_end depth) []).bind
  · refine (atAnyKeyword_end declarationWords).look_refuse_eq ?_
    refine get_looks.andRefuse fun _ => ?_
    exact ((grammar_expression_refuses depth).follow fun _ hnext => hnext.noOperand).bind

lemma item_refuses (depth n : Nat) : Refuses (item (grammar depth) n) [] AtEnd := by
  refine Refuses.orElse (keyword_refuses_end "extern").bind ?_
  refine Refuses.orElse (usingDirective_refuses fun _ hnext => ⟨hnext.ne _, hnext.ne _⟩).bind ?_
  refine Refuses.orElse (mark_refuses fun _ hnext => hnext.ne _).bind ?_
  refine Refuses.orElse (namespaceItem_refuses (fun _ hnext => hnext.ne _) n) ?_
  refine Refuses.orElse (keyword_refuses_end "namespace").bind.bind ?_
  refine Refuses.orElse (typeDecl_refuses fun _ hnext => hnext.noDecl).bind (Refuses.orElse ?_ ?_)
  · refine (attributeLists_end _).look_refuse fun _ _ => ?_
    refine modifiers_end.look_refuse fun _ _ => ?_
    exact (keyword_refuses_end "delegate").bind.bind
  · refine (atAnyKeyword_end itemWords).look_refuse_eq ?_
    cases depth with
    | zero => exact Refuses.failure.bind
    | succ depth => exact (statement_refuses depth).bind

lemma finish_takes : Takes finish [] AtEnd fun _ _ => True := by
  refine .nil fun rest _ _ _ hnext => ?_
  cases rest with
  | nil => exact ⟨(), rfl, trivial⟩
  | cons token rest => cases hnext

/-! A text of one declaration. -/

section One

variable {after : Option TypeTree → Option TypeTree} {s : List Lexeme}

lemma item_takes_word {Q : List Token → Item → Prop} (word : String) (hs : ∀ next, upcoming s next = some (.word word))
    (hword : word ∉ ["extern", "global", "using"]) {g : Grammar} (h : TakesTo after (namespaceItem g depth <|>
      namespaceLine g <|> typeItem g depth <|> delegateItem g <|> statementItem g) s F Q) :
    TakesTo after (item g depth) s F Q := by
  simp only [List.mem_cons, List.not_mem_nil, or_false, not_or] at hword
  obtain ⟨hexternal, hglobal, husing⟩ := hword
  have hother : ∀ {α : Type} {p : Reader α}, Refuses p [] (· = some (.word word)) → Refuses p s F :=
    fun hp => hp.before fun next _ => hs next
  refine TakesTo.orElse_right (hother (keyword_refuses_other (Ne.symm hexternal))).bind ?_
  refine TakesTo.orElse_right (hother (usingDirective_refuses ?_)).bind (TakesTo.orElse_right (hother (mark_refuses ?_)).bind h)
  · rintro _ rfl
    exact ⟨by simpa using hglobal, by simpa using husing⟩
  · rintro _ rfl
    simp

lemma items_take_type {Q : List Token → DeclTree → Prop} (word : String)
    (hs : ∀ next, upcoming s next = some (.word word)) (hword : word ∉ ["extern", "global", "using", "namespace"])
    (h : TakesTo after (typeDecl (grammar depth) (typeBody (grammar depth) depth)) s (· ≠ some (.mark ";")) Q) :
    TakesTo after (items (grammar depth) depth) s AtEnd fun tokens found => ∃ tree, found = [.type tree] ∧ Q tokens tree := by
  have hnamespace : "namespace" ≠ word := fun heq => hword (heq ▸ by decide)
  have hitem : TakesTo after (item (grammar depth) depth) s (· ≠ some (.mark ";")) fun tokens found =>
      ∃ tree, found = .type tree ∧ Q tokens tree := by
    refine item_takes_word word hs (fun hmem => hword (List.mem_append_left ["namespace"] hmem)) ?_
    refine TakesTo.orElse_right (Refuses.before (F := (· = some (.word word))) (namespaceItem_refuses ?_ depth)
      fun next _ => hs next) (TakesTo.orElse_right (Refuses.bind (Refuses.bind ?_)) (TakesTo.orElse_left ?_))
    · rintro _ rfl
      simpa using hnamespace.symm
    · exact (keyword_refuses_other hnamespace).before fun next _ => hs next
    · exact h.bind_pure fun _ tree htree => ⟨tree, rfl, htree⟩
  have hne : s ≠ [] := by
    rintro rfl
    cases hs none
  refine (TakesTo.bind_nil (hitem.many_one hne (fun _ hnext => hnext.ne _) (item_refuses depth depth)) fun _ _ hx =>
    finish_takes.bind_pure fun _ _ _ => hx).imp ?_
  rintro tokens _ ⟨_, rfl, tree, rfl, htree⟩
  exact ⟨tree, rfl, htree⟩

/-- A class with one member. -/
def hostSpelling (name : String) (inner : List Lexeme) : List Lexeme :=
  [.word "class"] ++ ([.word name] ++ ([.mark "\x7b"] ++ (inner ++ [.mark "\x7d"])))

/-- Of a class with one member that member is read, from the tokens between the braces. -/
lemma host_takes {name : String} (hs : s ≠ []) (hdepth : (hostSpelling name s).length ≤ depth)
    {Q : List Token → Option MemberTree → Prop} (hF : F (some (.mark "\x7d")))
    (h : ∀ n, TakesTo after (Reader.member (grammar depth) (n + 1)) s F Q) :
    TakesTo after (items (grammar depth) depth) (hostSpelling name s) AtEnd fun tokens found =>
      ∃ tree front inner back member, found = [.type tree] ∧ tokens = front ++ (inner ++ back) ∧
        inner.map Token.lexeme = s ∧ back.length = 1 ∧ Q inner member ∧ tree.members = member.toList := by
  obtain ⟨n, rfl⟩ : ∃ n, depth = n + 2 := by
    simp only [hostSpelling, List.length_append, List.length_singleton] at hdepth
    exact ⟨depth - 2, by omega⟩
  have hbody := typeBody_takes (F := (· ≠ some (.mark ";"))) ((h n).many_one (G := AtClosing) hs
    (fun _ hnext => hnext ▸ hF) (member_refuses (n + 2) (n + 1)))
  have hdecl := typeDecl_takes .nil (show Kind.classType ≠ .enumType by decide) name
    (TakesTo.many_none (headerPart_refuses (grammar (n + 2)) true)) hbody
  refine (items_take_type "class" (fun _ => rfl) (by decide) hdecl).imp ?_
  rintro _ _ ⟨_, rfl, front, _, _, rfl, ⟨before, inner, back, _, rfl, hinner, hback, ⟨member, rfl, hmember⟩, rfl⟩, rfl⟩
  exact ⟨_, front ++ before, inner, back, member, rfl, by simp, hinner, hback, hmember, by cases member <;> rfl⟩

end One

lemma Plan.named (plan : Plan) {d : PlanDecl} (hd : d ∈ plan.decls) :
    (d.scope (plan.decls.map PlanDecl.arity)).Named plan.decls where
  arities := rfl
  decls := fun e he => ⟨(plan.fits e he).spaces.1, (plan.fits e he).spaces.2.2, (plan.fits e he).name⟩
  typeParams := by
    intro name hname
    obtain ⟨param, hparam, rfl⟩ := List.mem_map.mp hname
    exact ((plan.fits d hd).generics.2.2 param hparam).1
  methodParams := fun _ hname => nomatch hname

lemma item_takes (plan : Plan) {d : PlanDecl} (hd : d ∈ plan.decls) (hdepth : (d.placedSpelling plan.decls).length ≤ depth) :
    Takes (item (grammar depth) depth) (d.placedSpelling plan.decls) (· ≠ some (.mark ";")) fun _ =>
      d.PlacedAs plan.decls := by
  have hnamespace : Takes (namespaceItem (grammar depth) depth) (d.placedSpelling plan.decls) (· ≠ some (.mark ";"))
      fun _ => d.PlacedAs plan.decls := by
    obtain ⟨n, hn⟩ : ∃ n, depth = n + 3 := by
      rw [PlanDecl.placedSpelling_eq] at hdepth
      simp only [List.length_append, List.length_singleton] at hdepth
      exact ⟨depth - 3, by omega⟩
    have htake := namespaceItem_takes (plan.named hd) (plan.fits d hd) hdepth n
    rwa [← hn] at htake
  exact item_takes_word "namespace" (fun _ => rfl) (by decide) (TakesTo.orElse_left hnamespace)

/-- A whole plan is read declaration by declaration. -/
lemma items_take (plan : Plan) (hdepth : plan.spelling.length ≤ depth) :
    Takes (items (grammar depth) depth) plan.spelling AtEnd fun _ =>
      List.Forall₂ (PlanDecl.PlacedAs plan.decls) plan.decls := by
  have htake : ∀ d ∈ plan.decls, Takes (item (grammar depth) depth) (d.placedSpelling plan.decls)
      (· ≠ some (.mark ";")) fun _ => d.PlacedAs plan.decls := by
    intro d hd
    have hle : (d.placedSpelling plan.decls).length ≤ plan.spelling.length :=
      (List.sublist_flatten_of_mem (List.mem_map_of_mem hd)).length_le
    exact item_takes plan hd (by omega)
  have hmany := TakesTo.many (G := AtEnd) htake (fun _ _ => ⟨by simp [PlanDecl.placedSpelling], by simp [PlanDecl.placedSpelling]⟩)
    (fun _ hnext => hnext.ne _) (item_refuses depth depth)
  exact hmany.bind_nil fun _ _ hitems => finish_takes.bind_pure fun _ _ _ => hitems

end TypeAtlas
