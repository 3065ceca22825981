import TypeAtlas.Proofs.Reading

/-!
What reading keeps. A law is a property of cursors that survives taking a token and remembering
the type of a variable, together with what it says of the names that stand in front of such a
cursor. Every reader keeps every law; those of types also give trees whose names are as the law
says.
-/

namespace TypeAtlas.Source

variable {tree : TypeTree}

mutual

/-- Every name and every qualifier in a written type is as told. -/
def TypeTree.NamesAre (N : String → Prop) : TypeTree → Prop
  | .builtin _ | .unsupported .. => True
  | .simple name => N name
  | .generic name args => N name ∧ TypeTree.NamesAreEach N args
  | .qualified qualifier last => N qualifier ∧ last.NamesAre N
  | .array element _ => element.NamesAre N
  | .wrapped inner => inner.NamesAre N
  | .tuple elements => TypeTree.NamesAreEach N elements

def TypeTree.NamesAreEach (N : String → Prop) : List TypeTree → Prop
  | [] => True
  | tree :: trees => tree.NamesAre N ∧ TypeTree.NamesAreEach N trees

end

lemma TypeTree.namesAreEach_iff {N : String → Prop} {trees : List TypeTree} :
    NamesAreEach N trees ↔ ∀ tree ∈ trees, tree.NamesAre N := by
  induction trees with
  | nil => simp [NamesAreEach]
  | cons tree trees ih => simp [NamesAreEach, ih]

/-- A variable, or a pattern of them, begins with the first of the tokens. -/
def AtVariable (tokens : List Token) : Prop :=
  ∃ token rest, tokens = token :: rest ∧ (token.kind = .word ∨ Reader.isMark "(" token = true)

/-- A property of cursors that survives every basic step of reading. -/
structure Law where
  Holds : Cursor → Prop
  /-- What is told of names. -/
  Named : String → Prop
  /-- What is told of the types of variables. -/
  Told : TypeTree → Prop
  next : ∀ {c token rest}, Holds c → c.rest = token :: rest → Holds { c with rest := rest, stop := token.stop }
  told : ∀ {depth c tree c'}, Holds c → (grammar depth).type.run c = some (tree, c') → AtVariable c'.rest →
    tree.NamesAre Named → Told tree
  declare : ∀ {c c' tree}, Holds c → Holds c' → Told tree → Holds { c' with declared := c.declared.or (some tree) }
  word : ∀ {c token rest}, Holds c → c.rest = token :: rest → token.kind = .word → Named token.text
  qualifier : ∀ {c} (stop : Nat), Holds c → Named (cleanName (textOf (c.rest.takeWhile (·.start < stop))))
  empty : Named ""

/-- A law of the tokens in front of the cursor and of where it stands; nothing is told of names and types. -/
def Law.ofTokens (P : List Token → Nat → Prop) (next : ∀ token rest stop, P (token :: rest) stop → P rest token.stop) :
    Law where
  Holds c := P c.rest c.stop
  Named _ := True
  Told _ := True
  next := by
    rintro ⟨_, stop, declared⟩ token rest hc rfl
    exact next token rest stop hc
  told _ _ _ _ := trivial
  declare _ hc _ := hc
  word _ _ _ := trivial
  qualifier _ _ := trivial
  empty := trivial

/-- What holds of the type remembered before and of the one declared now. -/
lemma told_or {Q : TypeTree → Prop} {before : Option TypeTree} (hbefore : ∀ other, before = some other → Q other)
    (htree : Q tree) : ∀ other, before.or (some tree) = some other → Q other := by
  cases before with
  | none => exact fun other heq => Option.some.inj heq ▸ htree
  | some first => exact hbefore

namespace Reader

variable {α β : Type} {c c' : Cursor} {q : Unit → Reader α} {f : α → Reader β}

/-- Where the law holds, the reader gives something with `Q`, and the law holds behind it. -/
def Gives (law : Law) (p : Reader α) (Q : α → Prop) : Prop :=
  ∀ c x c', law.Holds c → p.run c = some (x, c') → Q x ∧ law.Holds c'

/-- The law holds behind the reader where it held before. -/
def Keeps (law : Law) (p : Reader α) : Prop := Gives law p fun _ => True

def Offers (p : Reader α) (x : α) : Prop := ∃ c c', p.run c = some (x, c')

@[grind →]
lemma not_offers_failure {x : α} (h : (failure : Reader α).Offers x) : False := by
  obtain ⟨c, c', ⟨⟩⟩ := h

variable {law : Law} {p : Reader α} {Q : α → Prop} {R : β → Prop}

/-- Two readers in a row succeed one by one. -/
lemma exists_of_run_bind {y : β} (h : (p >>= f).run c = some (y, c')) :
    ∃ x mid, p.run c = some (x, mid) ∧ (f x).run mid = some (y, c') := by
  rw [StateT.run_bind] at h
  obtain ⟨⟨x, mid⟩, hfirst, hsecond⟩ := Option.bind_eq_some_iff.mp h
  exact ⟨x, mid, hfirst, hsecond⟩

/-- One of two readers succeeds. -/
lemma run_or_of_run_orElse {x : α} (h : (HOrElse.hOrElse p q).run c = some (x, c')) :
    p.run c = some (x, c') ∨ (q ()).run c = some (x, c') := by
  change (p <|> q ()).run c = _ at h
  rw [run_orElse] at h
  split at h
  · rename_i found hfound
    cases h
    exact .inl hfound
  · exact .inr h

lemma exists_of_run_nextIf {test : Token → Bool} {token : Token} (h : (nextIf test).run c = some (token, c')) :
    ∃ rest, c.rest = token :: rest ∧ test token = true ∧ c'.stop = token.stop := by
  obtain ⟨rest, stop, declared⟩ := c
  obtain ⟨found, mid, hnext, hrest⟩ := exists_of_run_bind h
  cases rest with
  | nil => cases hnext
  | cons first rest =>
    cases hnext
    split at hrest
    · rename_i htest
      cases hrest
      exact ⟨rest, rfl, htest, rfl⟩
    · cases hrest

namespace Gives

lemma pure {x : α} (h : Q x) : Gives law (pure x) Q := by
  rintro c y c' hc ⟨⟩
  exact ⟨h, hc⟩

lemma failure : Gives law failure Q := by
  rintro c y c' hc ⟨⟩

lemma imp {Q' : α → Prop} (h : Gives law p Q) (hpost : ∀ x, Q x → Q' x) : Gives law p Q' :=
  fun c x c' hc hrun => (h c x c' hc hrun).imp_left (hpost x)

lemma keeps (h : Gives law p Q) : Keeps law p := h.imp fun _ _ => trivial

/-- What comes behind may count on what the first reader gives. -/
lemma bind (h : Gives law p Q) (hf : ∀ x, Q x → p.Offers x → Gives law (f x) R) : Gives law (p >>= f) R := by
  intro c y c' hc hrun
  obtain ⟨x, mid, hfirst, hsecond⟩ := exists_of_run_bind hrun
  obtain ⟨hx, hmid⟩ := h c x mid hc hfirst
  exact hf x hx ⟨c, mid, hfirst⟩ mid y c' hmid hsecond

/-- Behind a reader of which only the law counts. -/
lemma after (h : Keeps law p) (hf : ∀ x, Gives law (f x) R) : Gives law (p >>= f) R := h.bind fun x _ _ => hf x

lemma orElse (hp : Gives law p Q) (hq : Gives law (q ()) Q) : Gives law (HOrElse.hOrElse p q) Q := by
  intro c x c' hc hrun
  rcases run_or_of_run_orElse hrun with hrun | hrun
  · exact hp c x c' hc hrun
  · exact hq c x c' hc hrun

lemma map {f : α → β} (h : Gives law p Q) (hpost : ∀ x, Q x → R (f x)) : Gives law (f <$> p) R := by
  intro c y c' hc hrun
  rw [StateT.run_map] at hrun
  obtain ⟨⟨x, mid⟩, hfirst, heq⟩ := Option.map_eq_some_iff.mp hrun
  cases heq
  exact (h c x mid hc hfirst).imp_left (hpost x)

lemma get : Gives law get law.Holds := by
  rintro c y c' hc ⟨⟩
  exact ⟨hc, hc⟩

lemma optional (h : Gives law p Q) : Gives law (optional p) fun found => ∀ x ∈ found, Q x := by
  refine .orElse (h.map fun x hx y hy => ?_) (.pure fun x hx => nomatch hx)
  cases hy
  exact hx

lemma upTo (h : Gives law p Q) (n : Nat) : Gives law (upTo p n) fun xs => ∀ x ∈ xs, Q x := by
  induction n with
  | zero => exact .pure fun x hx => nomatch hx
  | succ n ih =>
    refine h.optional.bind fun found hfound _ => ?_
    cases found with
    | none => exact .pure fun x hx => nomatch hx
    | some x =>
      refine ih.bind fun xs hxs _ => .pure fun y hy => ?_
      rcases List.mem_cons.mp hy with rfl | hy
      · exact hfound y rfl
      · exact hxs y hy

lemma many (h : Gives law p Q) : Gives law (many p) fun xs => ∀ x ∈ xs, Q x :=
  get.bind fun _ _ _ => h.upTo _

end Gives

namespace Keeps

@[grind .]
lemma pure (x : α) : Keeps law (pure x) := Gives.pure trivial

@[grind .]
lemma failure : Keeps law (failure : Reader α) := Gives.failure

@[grind ←]
lemma bind (h : Keeps law p) (hf : ∀ x, p.Offers x → Keeps law (f x)) :
    Keeps law (p >>= f) := Gives.bind h fun x _ hx => hf x hx

@[grind ←]
lemma orElse (hp : Keeps law p) (hq : Keeps law (q ())) : Keeps law (HOrElse.hOrElse p q) := Gives.orElse hp hq

@[grind ←]
lemma map {f : α → β} (h : Keeps law p) : Keeps law (f <$> p) := Gives.map h fun _ _ => trivial

@[grind .]
lemma get : Keeps law get := Gives.get.keeps

@[grind ←]
lemma set {c : Cursor} (h : law.Holds c) : Keeps law (set c) := by
  rintro c₀ y c' hc ⟨⟩
  exact ⟨trivial, h⟩

@[grind ←]
lemma optional (h : Keeps law p) : Keeps law (optional p) := (Gives.optional h).keeps

@[grind ←]
lemma many (h : Keeps law p) : Keeps law (many p) := (Gives.many h).keeps

end Keeps

/-! Single tokens. -/

lemma next_gives : Gives law next fun token => token.kind = .word → law.Named token.text := by
  rintro ⟨rest, stop, declared⟩ token c' hc hrun
  cases rest with
  | nil => cases hrun
  | cons first rest =>
    cases hrun
    exact ⟨law.word hc rfl, law.next hc rfl⟩

lemma nextIf_gives (test : Token → Bool) :
    Gives law (nextIf test) fun token => test token = true ∧ (token.kind = .word → law.Named token.text) := by
  refine next_gives.bind fun token htoken _ => ?_
  split
  · rename_i htest
    exact .pure ⟨htest, htoken⟩
  · exact .failure

lemma name_gives : Gives law name law.Named := by
  refine (nextIf_gives _).bind fun token htoken _ => .pure (htoken.2 ?_)
  simpa using htoken.1

lemma plainName_gives : Gives law plainName law.Named := by
  refine (nextIf_gives _).bind fun token htoken _ => .pure (htoken.2 ?_)
  have htest := htoken.1
  simp only [Bool.and_eq_true, beq_iff_eq] at htest
  exact htest.1

@[grind .]
lemma next_keeps : Keeps law next := next_gives.keeps

@[grind .]
lemma nextIf_keeps (test : Token → Bool) : Keeps law (nextIf test) := (nextIf_gives test).keeps

@[grind .]
lemma name_keeps : Keeps law name := name_gives.keeps

@[grind .]
lemma plainName_keeps : Keeps law plainName := plainName_gives.keeps

@[grind .]
lemma peek?_keeps : Keeps law peek? := by
  unfold peek?
  grind

@[grind .]
lemma mark_keeps (text : String) : Keeps law (mark text) := by
  unfold mark
  grind

@[grind .]
lemma keyword_keeps (text : String) : Keeps law (keyword text) := by
  unfold keyword
  grind

@[grind .]
lemma atMark_keeps (text : String) : Keeps law (atMark text) := by
  unfold atMark
  grind

@[grind .]
lemma atKeyword_keeps (text : String) : Keeps law (atKeyword text) := by
  unfold atKeyword
  grind

@[grind .]
lemma atAnyKeyword_keeps (texts : List String) : Keeps law (atAnyKeyword texts) := by
  unfold atAnyKeyword
  grind

@[grind .]
lemma ahead_keeps (tests : List (Token → Bool)) : Keeps law (ahead tests) := by
  unfold ahead
  grind

@[grind .]
lemma markIf_keeps (text : String) : Keeps law (markIf text) := by
  unfold markIf
  grind

@[grind .]
lemma keywordIf_keeps (text : String) : Keeps law (keywordIf text) := by
  unfold keywordIf
  grind

@[grind ←]
lemma commaList1_keeps (h : Keeps law p) : Keeps law (commaList1 p) := by
  unfold commaList1
  grind

@[grind ←]
lemma commaList_keeps (h : Keeps law p) : Keeps law (commaList p) := by
  unfold commaList
  grind

@[grind .]
lemma finish_keeps : Keeps law finish := by
  unfold finish
  grind

@[grind ←]
lemma withText_keeps (h : Keeps law p) : Keeps law (withText p) := by
  unfold withText
  grind

@[grind .]
lemma notes_keeps : Keeps law notes := by
  unfold notes
  grind

lemma declare_keeps (hc : law.Holds c) (h : law.Told tree) : Keeps law (declare c.declared tree) := by
  rintro c₁ x c' hc₁ ⟨⟩
  exact ⟨trivial, law.declare hc hc₁ h⟩

end Reader

/-- A grammar whose readers keep the law, and whose types have names as the law says. -/
structure Grammar.Keeps (law : Law) (g : Grammar) : Prop where
  type : g.type.Gives law (·.NamesAre law.Named)
  told : ∀ {c tree c'}, law.Holds c → g.type.run c = some (tree, c') → AtVariable c'.rest → law.Told tree
  expression : g.expression.Keeps law
  condition : g.condition.Keeps law
  pattern : g.pattern.Keeps law
  initialiser : g.initialiser.Keeps law
  statement : g.statement.Keeps law

namespace Reader

variable {α : Type} {p : Reader α} {Q : α → Prop} {law : Law} {g : Grammar}

attribute [grind .] Grammar.Keeps.expression Grammar.Keeps.condition Grammar.Keeps.pattern
  Grammar.Keeps.initialiser Grammar.Keeps.statement

@[grind .]
lemma type_keeps_of_grammar (hg : g.Keeps law) : Keeps law g.type := hg.type.keeps

/-! Types. -/

lemma commaList1_gives (h : Gives law p Q) : Gives law (commaList1 p) fun xs => ∀ x ∈ xs, Q x := by
  refine h.bind fun first hfirst _ => ?_
  have hrest : Gives law (many (mark "," >>= fun _ => p)) fun xs => ∀ x ∈ xs, Q x :=
    Gives.many (.after (mark_keeps ",") fun _ => h)
  refine hrest.bind fun rest hrest _ => .pure fun x hx => ?_
  rcases List.mem_cons.mp hx with rfl | hx
  · exact hfirst
  · exact hrest x hx

lemma noteTypes_gives : Gives law noteTypes fun trees => ∀ tree ∈ trees, tree.NamesAre law.Named := by
  refine .after notes_keeps fun notes => .pure fun tree htree => ?_
  obtain ⟨note, -, rfl⟩ := List.mem_map.mp htree
  trivial

lemma openArguments_gives : Gives law openArguments fun trees => ∀ tree ∈ trees, tree.NamesAre law.Named := by
  refine noteTypes_gives.bind fun before hbefore _ => ?_
  have hcomma : Gives law (mark "," >>= fun _ => noteTypes) fun trees => ∀ tree ∈ trees, tree.NamesAre law.Named :=
    .after (mark_keeps ",") fun _ => noteTypes_gives
  refine hcomma.many.bind fun commas hcommas _ => .pure fun tree htree => ?_
  rcases List.mem_append.mp htree with htree | htree
  · exact hbefore tree htree
  · obtain ⟨trees, htrees, htree⟩ := List.mem_flatten.mp htree
    exact hcommas trees htrees tree htree

@[grind .]
lemma atImplicit_keeps : Keeps law atImplicit := by
  unfold atImplicit
  grind

@[grind .]
lemma noteTypes_keeps : Keeps law noteTypes := noteTypes_gives.keeps

variable (hg : g.Keeps law)

include hg

lemma typeArgument_gives :
    Gives law (typeArgument g) fun trees => ∀ tree ∈ trees, tree.NamesAre law.Named := by
  refine noteTypes_gives.bind fun before hbefore _ => hg.type.bind fun type htype _ => ?_
  refine noteTypes_gives.bind fun after hafter _ => .pure fun tree htree => ?_
  simp only [List.append_assoc, List.singleton_append, List.mem_append, List.mem_cons] at htree
  rcases htree with htree | rfl | htree
  · exact hbefore tree htree
  · exact htype
  · exact hafter tree htree

lemma typeArguments_gives :
    Gives law (typeArguments g) fun trees => ∀ tree ∈ trees, tree.NamesAre law.Named := by
  refine .after (mark_keeps "<") fun _ => ?_
  refine .after (atMark_keeps ",") fun comma => .after (atMark_keeps ">") fun closed => ?_
  split
  · exact openArguments_gives.bind fun trees htrees _ => .after (mark_keeps ">") fun _ => .pure htrees
  · refine (commaList1_gives (typeArgument_gives hg)).bind fun args hargs _ => ?_
    refine .after (mark_keeps ">") fun _ => .pure fun tree htree => ?_
    obtain ⟨trees, htrees, htree⟩ := List.mem_flatten.mp htree
    exact hargs trees htrees tree htree

lemma simpleType_gives {text : String} (htext : law.Named text) :
    Gives law (simpleType g text) (·.NamesAre law.Named) := by
  refine .after (atMark_keeps "<") fun opened => ?_
  split
  · refine (typeArguments_gives hg).optional.bind fun args hargs _ => ?_
    cases args with
    | some args => exact .pure ⟨htext, TypeTree.namesAreEach_iff.mpr (hargs args rfl)⟩
    | none => exact .pure htext
  · exact .pure htext

lemma dotted_gives {start : List Token}
    (hstart : ∀ stop, law.Named (cleanName (textOf (start.takeWhile (·.start < stop))))) (n : Nat)
    (htree : tree.NamesAre law.Named) : Gives law (dotted g start n tree) (·.NamesAre law.Named) := by
  induction n generalizing tree with
  | zero => exact .pure htree
  | succ n ih =>
    refine .after (atMark_keeps ".") fun dot => ?_
    split
    · refine Gives.get.bind fun taken _ _ => Gives.get.bind fun before hbefore _ => ?_
      refine .after next_keeps fun _ => ?_
      have hlast : Gives law (name >>= simpleType g) (·.NamesAre law.Named) :=
        name_gives.bind fun word hword _ => simpleType_gives hg hword
      refine hlast.optional.bind fun last hlast _ => ?_
      cases last with
      | some last => exact ih ⟨hstart _, hlast last rfl⟩
      | none => exact .after (.set hbefore) fun _ => .pure htree
    · exact .pure htree

lemma typeName_gives : Gives law (typeName g) (·.NamesAre law.Named) := by
  refine Gives.get.bind fun start hstart _ => plainName_gives.bind fun first hfirst _ => ?_
  have hstart : ∀ stop, law.Named (cleanName (textOf (start.rest.takeWhile (·.start < stop)))) := fun stop =>
    law.qualifier stop hstart
  refine .after (markIf_keeps "::") fun aliased => ?_
  split
  · refine name_gives.bind fun word hword _ => (simpleType_gives hg hword).bind fun last hlast _ => ?_
    refine dotted_gives hg hstart _ ⟨?_, hlast⟩
    split
    · exact law.empty
    · exact hfirst
  · exact (simpleType_gives hg hfirst).bind fun tree htree _ => dotted_gives hg hstart _ htree

lemma tupleType_gives : Gives law (tupleType g) (·.NamesAre law.Named) := by
  refine .after (mark_keeps "(") fun _ => ?_
  have helement : Gives law (g.type >>= fun type => optional name >>= fun _ => pure type) (·.NamesAre law.Named) :=
    hg.type.bind fun type htype _ => .after (.optional name_keeps) fun _ => .pure htype
  refine (commaList1_gives helement).bind fun elements helements _ => .after (mark_keeps ")") fun _ => ?_
  split
  · exact .failure
  · exact .pure (TypeTree.namesAreEach_iff.mpr helements)

@[grind .]
lemma functionPointer_keeps : Keeps law (functionPointer g) := by
  unfold functionPointer
  refine .bind (keyword_keeps _) fun _ _ => .bind (mark_keeps _) fun _ _ => ?_
  refine .bind (atAnyKeyword_keeps _) fun convention _ => ?_
  split
  · refine .bind next_keeps fun _ _ => .bind ?_ fun _ _ => ?_ <;> grind
  · grind

@[grind .]
lemma arrayRank_keeps : Keeps law (arrayRank g) := by
  unfold arrayRank
  grind

lemma suffixed_gives (start : List Token) (n : Nat) (allowed : Suffixes) (htree : tree.NamesAre law.Named) :
    Gives law (suffixed g start n allowed tree) (·.NamesAre law.Named) := by
  induction n generalizing allowed tree with
  | zero => exact .pure htree
  | succ n ih =>
    refine .after (atMark_keeps "?") fun question => ?_
    split
    · exact .after next_keeps fun _ => ih _ htree
    refine .after (atMark_keeps "*") fun asterisk => ?_
    split
    · exact .after next_keeps fun _ => Gives.get.bind fun _ _ _ => ih _ trivial
    refine .after (atMark_keeps "[") fun bracket => ?_
    split
    · refine .after (.optional (arrayRank_keeps hg)) fun rank => ?_
      cases rank with
      | some rank => exact ih _ htree
      | none => exact .pure htree
    · exact .pure htree

lemma scopedType_gives : Gives law (scopedType g) (·.NamesAre law.Named) := by
  refine .after (keyword_keeps "scoped") fun _ => hg.type.bind fun inner hinner _ => ?_
  refine .after peek?_keeps fun following => ?_
  split
  · exact .pure hinner
  · exact .failure

lemma type_gives : Gives law (type g) (·.NamesAre law.Named) := by
  refine Gives.get.bind fun start hstart _ => ?_
  extract_lets tokens finish
  have hfinish : ∀ tree : TypeTree, tree.NamesAre law.Named → Gives law (finish tree) (·.NamesAre law.Named) :=
    fun tree htree => suffixed_gives hg _ _ _ htree
  clear_value finish tokens
  split
  · exact .failure
  split
  · exact (tupleType_gives hg).bind fun tree htree _ => hfinish tree htree
  split
  · refine .after (keyword_keeps "ref") fun _ => .after (keywordIf_keeps "readonly") fun _ => ?_
    exact hg.type.bind fun inner hinner _ => .pure hinner
  split
  · refine .after (withText_keeps (functionPointer_keeps hg)) fun pointer => ?_
    exact suffixed_gives hg _ _ _ trivial
  refine .after atImplicit_keeps fun implicit => ?_
  split
  · exact .after next_keeps fun _ => .pure trivial
  split
  · split
    · exact .after next_keeps fun _ => hfinish _ trivial
    · refine (scopedType_gives hg).optional.bind fun found hfound _ => ?_
      cases found with
      | some tree => exact .pure (hfound tree rfl)
      | none => exact (typeName_gives hg).bind fun tree htree _ => hfinish tree htree
  · exact .failure

@[grind .]
lemma typeArguments_keeps : Keeps law (typeArguments g) := (typeArguments_gives hg).keeps

@[grind .]
lemma typeName_keeps : Keeps law (typeName g) := (typeName_gives hg).keeps

end Reader

end TypeAtlas.Source
