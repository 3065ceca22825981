import TypeAtlas.Proofs.StatementLaws

/-!
What reading declarations and units keeps. A law that holds before the first token of a text holds
where reading it ends (`Law.holds_read`).
-/

namespace TypeAtlas.Source

lemma TypeNode.declarationKind_eq_enumType {node : TypeNode} {words : List String}
    (h : node.declarationKind words = .enumType) : node = .enumNode := by
  cases node with
  | enumNode => rfl
  | recordNode =>
    rw [declarationKind] at h
    split at h <;> cases h
  | _ => cases h

/-- The declaration makes a node of a kind that is matched, and an enum has no type parameters. -/
def DeclTree.Plain (tree : DeclTree) : Prop :=
  tree.node ≠ .recordStructNode ∧ (tree.kind = .enumType → tree.typeParams = [])

namespace Reader

variable {law : Law} {g : Grammar} {α : Type} {p : Reader α} {body : Reader (List MemberTree)}

/-! What a stretch of text is read from. -/

lemma exists_of_run_withText {c c' : Cursor} {found : α × String × Span}
    (h : (withText p).run c = some (found, c')) :
    p.run c = some (found.1, c') ∧ found.2.2 = ⟨(c.rest.head?.map (·.start)).getD c'.stop, c'.stop⟩ := by
  obtain ⟨_, _, ⟨⟩, h⟩ := exists_of_run_bind h
  obtain ⟨x, mid, hrun, h⟩ := exists_of_run_bind h
  obtain ⟨_, _, ⟨⟩, ⟨⟩⟩ := exists_of_run_bind h
  exact ⟨hrun, rfl⟩

/-- The stretch of a declaration begins with its first token or with a note in front of it. -/
lemma exists_of_run_withDeclText {c c' : Cursor} {found : α × String × Span}
    (h : (withDeclText p).run c = some (found, c')) :
    p.run c = some (found.1, c') ∧ found.2.2.stop = c'.stop ∧
      ∀ token ∈ c.rest.head?, found.2.2.start = token.start ∨ ∃ note ∈ token.notes, found.2.2.start = note.start := by
  obtain ⟨_, _, ⟨⟩, h⟩ := exists_of_run_bind h
  obtain ⟨⟨x, text, span⟩, mid, hrun, h⟩ := exists_of_run_bind h
  obtain ⟨hrun, hspan⟩ := exists_of_run_withText hrun
  obtain rfl : span = _ := hspan
  dsimp only at h
  split at h
  · cases h
    refine ⟨hrun, rfl, fun token htoken => .inl ?_⟩
    rw [Option.mem_def.mp htoken, Option.map_some, Option.getD_some]
  · rename_i token note hfound
    cases h
    obtain ⟨first, hfirst, hnote⟩ := Option.bind_eq_some_iff.mp hfound
    obtain ⟨_, hnote, ⟨⟩⟩ := Option.map_eq_some_iff.mp hnote
    refine ⟨hrun, rfl, fun other hother => .inr ?_⟩
    cases hfirst.symm.trans hother
    exact ⟨note, List.mem_of_find?_eq_some hnote, rfl⟩

/-! Declarations. -/

@[grind ←]
lemma withDeclText_keeps (h : Keeps law p) : Keeps law (withDeclText p) := by
  unfold withDeclText
  grind

@[grind .]
lemma closingSemicolon_keeps : Keeps law closingSemicolon := by
  unfold closingSemicolon
  grind

@[grind .]
lemma operatorSymbol_keeps : Keeps law operatorSymbol := by
  unfold operatorSymbol
  grind

/-- A record that is a struct makes the node of a record. -/
lemma typeKeyword_gives : Gives law typeKeyword fun found => found.1 ≠ .recordStructNode := by
  unfold typeKeyword
  refine .after (.optional ?_) fun _ => .after (nextIf_keeps _) fun token => ?_
  · grind
  split
  · exact .pure nofun
  · exact .pure nofun
  · exact .pure nofun
  · exact .pure nofun
  · refine Gives.get.bind fun following _ _ => .after (atKeyword_keeps _) fun atStruct => ?_
    split
    · exact .after next_keeps fun _ => .pure nofun
    refine .after (atKeyword_keeps _) fun atClass => ?_
    split
    · exact .after next_keeps fun _ => .pure nofun
    refine .after peek?_keeps fun next => ?_
    split
    · exact .pure nofun
    · exact .failure
  · exact .failure

@[grind .]
lemma typeKeyword_keeps : Keeps law typeKeyword := typeKeyword_gives.keeps

section

variable (hg : g.Keeps law)

include hg

@[grind .]
lemma accessor_keeps : Keeps law (accessor g) := by
  unfold accessor
  grind

@[grind .]
lemma accessors_keeps : Keeps law (accessors g) := by
  unfold accessors
  grind

@[grind .]
lemma interfaceQualifier_keeps : Keeps law (interfaceQualifier g) := by
  unfold interfaceQualifier
  grind

@[grind .]
lemma propertyRest_keeps (attributes : List AttributeList) (type : TypeTree) (name : String) :
    Keeps law (propertyRest g attributes type name) := by
  refine .bind (markIf_keeps _) fun arrow _ => ?_
  split
  · exact .bind hg.expression fun _ _ => .bind (mark_keeps _) fun _ _ => .pure _
  · refine .bind (accessors_keeps hg) fun names _ => .bind (.optional ?_) fun _ _ => .pure _
    grind

@[grind .]
lemma methodRest_keeps (attributes : List AttributeList) (returns : TypeTree) (name : String) :
    Keeps law (methodRest g attributes returns name) := by
  unfold methodRest
  grind

@[grind .]
lemma typedMember_keeps (attributes : List AttributeList) : Keeps law (typedMember g attributes) := by
  refine .bind (atAnyKeyword_keeps _) fun begins _ => .bind (ahead_keeps _) fun pointer _ => ?_
  split
  · exact .bind .failure fun _ h => (not_offers_failure h).elim
  refine .bind hg.type.keeps fun type _ => .bind (interfaceQualifier_keeps hg) fun _ _ => ?_
  refine .bind (atAnyKeyword_keeps _) fun nameless _ => ?_
  split
  · exact .bind .failure fun _ h => (not_offers_failure h).elim
  grind

@[grind .]
lemma operatorMember_keeps : Keeps law (operatorMember g) := by
  unfold operatorMember
  grind

@[grind .]
lemma indexer_keeps : Keeps law (indexer g) := by
  unfold indexer
  refine .bind (type_keeps_of_grammar hg) fun _ _ => .bind (interfaceQualifier_keeps hg) fun _ _ => ?_
  refine .bind (keyword_keeps _) fun _ _ => .bind (mark_keeps _) fun _ _ => ?_
  grind

@[grind .]
lemma constructor_keeps : Keeps law (constructor g) := by
  unfold constructor
  refine .bind name_keeps fun _ _ => .bind (params_keeps hg) fun _ _ => ?_
  refine .bind (.optional ?_) fun _ _ => functionBody_keeps hg
  grind

@[grind .]
lemma destructor_keeps : Keeps law (destructor g) := by
  unfold destructor
  grind

@[grind .]
lemma eventMember_keeps : Keeps law (eventMember g) := by
  unfold eventMember
  grind

@[grind .]
lemma delegateMember_keeps : Keeps law (delegateMember g) := by
  unfold delegateMember
  refine .bind (keyword_keeps _) fun _ _ => .bind (atMark_keeps _) fun pointer _ => ?_
  split
  · exact .bind .failure fun _ h => (not_offers_failure h).elim
  · refine .bind (type_keeps_of_grammar hg) fun _ _ => .bind name_keeps fun _ _ => ?_
    grind

@[grind .]
lemma fields_keeps : Keeps law (fields g) := by
  unfold fields
  refine .bind (atAnyKeyword_keeps _) fun begins _ => .bind (ahead_keeps _) fun pointer _ => ?_
  split
  · exact .bind .failure fun _ h => (not_offers_failure h).elim
  · exact .bind (typedNames_keeps hg _) fun _ _ => mark_keeps _

@[grind .]
lemma baseEntry_keeps : Keeps law (baseEntry g) := by
  unfold baseEntry
  grind

@[grind .]
lemma baseList_keeps : Keeps law (baseList g) := by
  unfold baseList
  grind

@[grind .]
lemma headerPart_keeps (hasParams : Bool) : Keeps law (headerPart g hasParams) := by
  unfold headerPart
  grind

@[grind .]
lemma enumMember_keeps : Keeps law (enumMember g) := by
  unfold enumMember
  grind

@[grind .]
lemma enumRest_keeps : Keeps law (enumRest g) := by
  unfold enumRest
  grind

/-- What is read of a declaration fits every place. -/
lemma typeDraft_gives (hbody : Keeps law body) :
    Gives law (typeDraft g body) fun make => ∀ text span, (make text span).span = span ∧ (make text span).Plain := by
  refine .after (attributeLists_keeps hg) fun attributes => ?_
  refine .after (.many modifier_keeps) fun _ => typeKeyword_gives.bind fun found hfound _ => ?_
  obtain ⟨node, words⟩ := found
  dsimp only
  split
  · exact .after (enumRest_keeps hg) fun word => .pure fun _ _ => ⟨rfl, hfound, fun _ => rfl⟩
  · rename_i hnode
    refine .after name_keeps fun word => .after (.many (headerPart_keeps hg _)) fun parts => ?_
    refine .after (.orElse ?_ ?_) fun members => .pure fun _ _ =>
      ⟨rfl, hfound, fun hkind => absurd (TypeNode.declarationKind_eq_enumType hkind) hnode⟩
    · grind
    · grind

@[grind ←]
lemma typeDecl_keeps {body : Reader (List MemberTree)} (hbody : Keeps law body) : Keeps law (typeDecl g body) :=
  .bind (withDeclText_keeps (typeDraft_gives hg hbody).keeps) fun _ _ => .pure _

@[grind .]
lemma directiveTarget_keeps (isAlias : Bool) : Keeps law (directiveTarget g isAlias) := by
  unfold directiveTarget
  cases isAlias <;> grind

@[grind .]
lemma usingDirective_keeps : Keeps law (usingDirective g) := by
  unfold usingDirective
  refine .bind (keywordIf_keeps _) fun _ _ => .bind (keyword_keeps _) fun _ _ => ?_
  refine .bind (.optional ?_) fun title _ => ?_
  · grind
  · split
    all_goals grind

@[grind .]
lemma namespaceName_keeps : Keeps law (namespaceName g) := by
  unfold namespaceName
  grind

lemma body_and_member_keep (depth : Nat) :
    Keeps law (typeBody g depth) ∧ Keeps law (member g depth) := by
  induction depth with
  | zero => exact ⟨by unfold typeBody; grind, by unfold member; grind⟩
  | succ depth ih =>
    obtain ⟨hbody, hmember⟩ := ih
    refine ⟨by unfold typeBody; grind, ?_⟩
    unfold member
    refine .orElse ?_ (.orElse ?_ (.orElse ?_ ?_))
    · grind
    · grind
    · refine .bind (withDeclText_keeps ?_) fun _ _ => .pure _
      refine .bind (attributeLists_keeps hg) fun _ _ => .bind (.many modifier_keeps) fun _ _ => ?_
      grind
    · grind

@[grind .]
lemma typeBody_keeps (depth : Nat) : Keeps law (typeBody g depth) :=
  (body_and_member_keep hg depth).1

@[grind .]
lemma member_keeps (depth : Nat) : Keeps law (member g depth) :=
  (body_and_member_keep hg depth).2

end

end Reader

/-- From one cursor to the other, tokens were taken from the front. -/
def Cursor.Leads (c c' : Cursor) : Prop := ∃ taken, c.rest = taken ++ c'.rest ∧ c'.stop = stopAfter c.stop taken

/-- A reader only takes tokens from the front. -/
def Law.advancing (start : Cursor) : Law :=
  .ofTokens (fun rest stop => ∃ taken, start.rest = taken ++ rest ∧ stop = stopAfter start.stop taken) (by
    rintro token rest stop ⟨taken, hrest, -⟩
    exact ⟨taken ++ [token], by simp [hrest], by simp [stopAfter]⟩)

lemma Reader.leads {α : Type} {p : Reader α} {c c' : Cursor} {x : α} (h : ∀ start, Keeps (Law.advancing start) p)
    (hrun : p.run c = some (x, c')) : c.Leads c' :=
  (h c c x c' ⟨[], rfl, rfl⟩ hrun).2

/-! Declarations among the items of a unit. -/

/-- The item declares no type, wherever it stands. -/
def Item.IsBare (item : Item) : Prop := ∀ ns usings, (item.placed ns usings).1 = []

namespace Reader

variable {law : Law} {g : Grammar}

lemma externAlias_gives : Gives law externAlias Item.IsBare := by
  refine .after (keyword_keeps _) fun _ => .after (keyword_keeps _) fun _ => ?_
  exact .after name_keeps fun _ => .after (mark_keeps _) fun _ => .pure fun _ _ => rfl

variable (hg : g.Keeps law)

include hg

lemma usingItem_gives : Gives law (usingItem g) Item.IsBare :=
  .after (usingDirective_keeps hg) fun _ => .pure fun _ _ => rfl

lemma globalAttributes_gives : Gives law (globalAttributes g) Item.IsBare := by
  refine .after (mark_keeps _) fun _ => .after (.orElse (keyword_keeps _) (keyword_keeps _)) fun _ => ?_
  refine .after (mark_keeps _) fun _ => .after (commaList1_keeps (oneAttribute_keeps hg)) fun _ => ?_
  exact .after (markIf_keeps _) fun _ => .after (mark_keeps _) fun _ => .pure fun _ _ => rfl

lemma namespaceLine_gives : Gives law (namespaceLine g) Item.IsBare :=
  .after (namespaceName_keeps hg) fun _ => .after (mark_keeps _) fun _ => .pure fun _ _ => rfl

lemma delegateItem_gives : Gives law (delegateItem g) Item.IsBare := by
  refine .after (attributeLists_keeps hg) fun _ => .after (.many modifier_keeps) fun _ => ?_
  exact .after (delegateMember_keeps hg) fun _ => .pure fun _ _ => rfl

lemma statementItem_gives : Gives law (statementItem g) Item.IsBare := by
  refine .after (atAnyKeyword_keeps _) fun _ => ?_
  split
  · exact Gives.bind Keeps.failure fun _ _ h => (not_offers_failure h).elim
  · exact .after hg.statement fun _ => .pure fun _ _ => rfl

lemma typeItem_keeps (depth : Nat) : Keeps law (typeItem g depth) :=
  .bind (typeDecl_keeps hg (typeBody_keeps hg depth)) fun _ _ => .pure _

lemma namespaceItem_keeps (depth : Nat) : Keeps law (namespaceItem g depth) := by
  induction depth with
  | zero => exact .failure
  | succ depth ih =>
    refine .bind (namespaceName_keeps hg) fun title _ => .bind (mark_keeps _) fun _ _ => ?_
    have hmember : Keeps law (member g depth >>= fun _ => pure Item.other) :=
      .bind (member_keeps hg depth) fun _ _ => .pure _
    refine .bind (.many (.orElse (usingItem_gives hg).keeps <| .orElse ih <| .orElse (typeItem_keeps hg depth) <|
      .orElse hmember externAlias_gives.keeps)) fun items _ => ?_
    exact .bind (mark_keeps _) fun _ _ => .bind closingSemicolon_keeps fun _ _ => .pure _

lemma item_keeps (depth : Nat) : Keeps law (item g depth) :=
  .orElse externAlias_gives.keeps <| .orElse (usingItem_gives hg).keeps <| .orElse (globalAttributes_gives hg).keeps <|
    .orElse (namespaceItem_keeps hg depth) <| .orElse (namespaceLine_gives hg).keeps <|
      .orElse (typeItem_keeps hg depth) <| .orElse (delegateItem_gives hg).keeps (statementItem_gives hg).keeps

lemma items_keeps (depth : Nat) : Keeps law (items g depth) :=
  .bind (.many (item_keeps hg depth)) fun _ _ => .bind finish_keeps fun _ _ => .pure _

end Reader

/-- The type of the first variable in a text is remembered by a cursor of the law. -/
lemma Law.holds_read {law : Law} {path text : String} {tree : TypeTree}
    (hstart : ∀ tokens, tokenize text = some tokens → law.Holds { rest := tokens })
    (h : (Document.read path text).declared = some tree) : ∃ c, law.Holds c ∧ c.declared = some tree := by
  obtain ⟨⟨items, c⟩, hread, hdeclared⟩ := Option.bind_eq_some_iff.mp h
  obtain ⟨tokens, htokens, hrun⟩ := Option.bind_eq_some_iff.mp hread
  exact ⟨c, (Reader.items_keeps (grammar_keeps _) _ _ _ _ (hstart tokens htokens) hrun).2, hdeclared⟩

end TypeAtlas.Source
