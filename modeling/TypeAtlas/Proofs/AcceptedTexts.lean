import TypeAtlas.Proofs.ReferenceReading
import TypeAtlas.Proofs.UnitLaws

/-!
What texts are accepted as types. The text is put into the body of a class, and the type of the
first variable there is taken for the type meant. It is read from tokens of the body, and behind
them a variable begins (`TypeRef.parse_first_type`). Whether it is all of the text is not asked: what
stands before and behind it may as well be modifiers, attributes, variables or members.
-/

namespace TypeAtlas

open Source Source.Reader

/-- The tokens that the document around a text begins with. -/
def hostOpening : List Token :=
  [⟨.word, "class", 0, "", []⟩, ⟨.word, "__Reference", 6, " ", []⟩, ⟨.mark, "\x7b", 18, " ", []⟩]

lemma Source.Piece.exists_of_cut (taken : List Char) {rest : List Char} {make : List Char → Piece} {fuel : Nat} {pieces : List Piece}
    (hne : taken ≠ []) (hsplit : split (taken ++ rest) = some (make, rest)) (h : cut fuel (taken ++ rest) = some pieces) :
    ∃ less more, cut less rest = some more ∧ pieces = make taken :: more := by
  obtain ⟨c, cs, rfl⟩ := List.exists_cons_of_ne_nil hne
  have hupTo := upTo_append (c :: cs) rest
  cases fuel with
  | zero => cases h
  | succ fuel =>
    rw [List.cons_append] at hsplit hupTo h
    rw [cut, hsplit, Option.bind_eq_bind, Option.bind_some] at h
    · obtain ⟨more, hmore, heq⟩ := Option.bind_eq_some_iff.mp h
      rw [hupTo] at heq
      exact ⟨fuel, more, hmore, (Option.some.inj heq).symm⟩
    · exact List.cons_ne_nil c _

lemma tokenize_host {text : String} {tokens : List Token} (h : tokenize (TypeRef.host text) = some tokens) :
    ∃ body, tokens = hostOpening ++ body := by
  obtain ⟨pieces, hcut, rfl⟩ := Option.map_eq_some_iff.mp h
  rw [Piece.ofText, toList_host] at hcut
  obtain ⟨_, _, hblank, rfl⟩ := Piece.exists_of_cut "class".toList (by decide) rfl hcut
  obtain ⟨_, _, hname, rfl⟩ := Piece.exists_of_cut " ".toList (by decide) rfl hblank
  obtain ⟨_, _, hspace, rfl⟩ := Piece.exists_of_cut "__Reference".toList (by decide) rfl hname
  obtain ⟨_, _, hbrace, rfl⟩ := Piece.exists_of_cut " ".toList (by decide) rfl hspace
  obtain ⟨_, _, -, rfl⟩ := Piece.exists_of_cut "\x7b".toList (by decide) rfl hbrace
  exact ⟨_, rfl⟩

def ReadBefore (node after : List Token) (tree : TypeTree) : Prop :=
  ∃ depth stop declared c, (grammar depth).type.run ⟨node ++ after, stop, declared⟩ = some (tree, c) ∧ c.rest = after

/-- A type that is read somewhere among the tokens, before a variable. -/
def TypedIn (tokens : List Token) (tree : TypeTree) : Prop :=
  ∃ before node after, tokens = before ++ (node ++ after) ∧ ReadBefore node after tree ∧ AtVariable after

def Source.Law.typedIn (tokens : List Token) : Law where
  Holds c := (∃ before, tokens = before ++ c.rest) ∧ ∀ tree, c.declared = some tree → TypedIn tokens tree
  Named _ := True
  Told := TypedIn tokens
  next := by
    rintro ⟨_, stop, declared⟩ token rest ⟨⟨before, hbefore⟩, htold⟩ rfl
    exact ⟨⟨before ++ [token], by simp [hbefore]⟩, htold⟩
  told := by
    rintro depth ⟨rest, stop, declared⟩ tree c' ⟨⟨before, hbefore⟩, -⟩ hrun hat -
    obtain ⟨node, rfl, -⟩ : Cursor.Leads ⟨rest, stop, declared⟩ c' :=
      Reader.leads (fun start => (grammar_keeps depth).type.keeps) hrun
    exact ⟨before, node, c'.rest, hbefore, ⟨depth, stop, declared, c', hrun, rfl⟩, hat⟩
  declare hc hc' htree := ⟨hc'.1, told_or hc.2 htree⟩
  word _ _ _ := trivial
  qualifier _ _ := trivial
  empty := trivial

variable {law : Law} {body : List Token} {depth : Nat}

/-- The class around a text is what is read of the document first, and its members stand behind
the opening. -/
lemma holds_behind_class (hbody : law.Holds ⟨body, 19, none⟩) {item : Item} {c : Cursor}
    (hrun : (Reader.item (grammar depth) depth).run ⟨hostOpening ++ body, 0, none⟩ = some (item, c)) : law.Holds c := by
  have hg : (grammar depth).Keeps law := grammar_keeps depth
  -- No other item begins with the word.
  rcases run_or_of_run_orElse hrun with hrun | hrun
  · cases (show none = some _ from hrun)
  rcases run_or_of_run_orElse hrun with hrun | hrun
  · cases (show none = some _ from hrun)
  rcases run_or_of_run_orElse hrun with hrun | hrun
  · cases (show none = some _ from hrun)
  rcases run_or_of_run_orElse hrun with hrun | hrun
  · cases depth <;> cases (show none = some _ from hrun)
  rcases run_or_of_run_orElse hrun with hrun | hrun
  · cases (show none = some _ from hrun)
  rcases run_or_of_run_orElse hrun with hrun | hrun
  rotate_left
  · rcases run_or_of_run_orElse hrun with hrun | hrun <;> cases (show none = some _ from hrun)
  obtain ⟨_, _, hdecl, ⟨⟩⟩ := exists_of_run_bind hrun
  obtain ⟨⟨_, _, _⟩, _, hdecl, ⟨⟩⟩ := exists_of_run_bind hdecl
  have hclass := (exists_of_run_withDeclText hdecl).1
  obtain ⟨_, _, hstep, hclass⟩ := exists_of_run_bind hclass
  cases (show some (([] : List AttributeList), Cursor.mk (hostOpening ++ body) 0 none) = some _ from hstep)
  obtain ⟨_, _, hstep, hclass⟩ := exists_of_run_bind hclass
  cases (show some (([] : List Unit), Cursor.mk (hostOpening ++ body) 0 none) = some _ from hstep)
  obtain ⟨_, _, hstep, hclass⟩ := exists_of_run_bind hclass
  cases (show some ((TypeNode.classNode, ["class"]), Cursor.mk (hostOpening.drop 1 ++ body) 5 none) = some _ from hstep)
  obtain ⟨_, _, hstep, hclass⟩ := exists_of_run_bind hclass
  cases (show some ("__Reference", Cursor.mk (hostOpening.drop 2 ++ body) 17 none) = some _ from hstep)
  obtain ⟨_, _, hstep, hclass⟩ := exists_of_run_bind hclass
  cases (show some (([] : List HeaderPart), Cursor.mk (hostOpening.drop 2 ++ body) 17 none) = some _ from hstep)
  obtain ⟨_, _, hclass, ⟨⟩⟩ := exists_of_run_bind hclass
  rcases run_or_of_run_orElse hclass with hclass | hclass
  · cases (show none = some _ from hclass)
  obtain ⟨_, _, hmembers, hclass⟩ := exists_of_run_bind hclass
  obtain ⟨_, _, hsemicolon, ⟨⟩⟩ := exists_of_run_bind hclass
  cases depth with
  | zero => cases hmembers
  | succ depth =>
    obtain ⟨_, _, hstep, hmembers⟩ := exists_of_run_bind hmembers
    cases (show some ((), Cursor.mk body 19 none) = some _ from hstep)
    have hrest : Keeps law (do
        let members ← many (member (grammar (depth + 1)) depth)
        mark "\x7d"
        return members.filterMap id) := by
      have hmember := member_keeps hg depth
      grind
    have hbehind := (hrest _ _ _ hbody hmembers).2
    exact (closingSemicolon_keeps _ _ _ hbehind hsemicolon).2

/-- Reading the document leads to a cursor of every law that holds behind its opening. -/
lemma holds_behind_host (hbody : law.Holds ⟨body, 19, none⟩) {found : List Item} {c : Cursor}
    (hrun : (items (grammar depth) depth).run ⟨hostOpening ++ body, 0, none⟩ = some (found, c)) : law.Holds c := by
  obtain ⟨_, _, hitems, hend⟩ := exists_of_run_bind hrun
  obtain ⟨_, _, ⟨⟩, hitems⟩ := exists_of_run_bind hitems
  obtain ⟨first, _, hfirst, hitems⟩ := exists_of_run_bind (p := Reader.optional (item (grammar depth) depth)) hitems
  rcases run_or_of_run_orElse hfirst with hsome | hnone
  · rw [StateT.run_map] at hsome
    obtain ⟨⟨x, mid⟩, hitem, ⟨⟩⟩ := Option.map_eq_some_iff.mp hsome
    obtain ⟨_, _, hmore, ⟨⟩⟩ := exists_of_run_bind hitems
    have hfirst := holds_behind_class hbody hitem
    have hkeeps : Keeps law (item (grammar depth) depth) := item_keeps (grammar_keeps depth) depth
    have hbehind := (hkeeps.upTo _ _ _ _ hfirst hmore).2
    obtain ⟨_, _, hfinish, ⟨⟩⟩ := exists_of_run_bind hend
    exact (finish_keeps _ _ _ hbehind hfinish).2
  · cases hnone
    cases hitems
    cases (show none = some _ from hend)

/-- A text is accepted for a type that stands somewhere in it, before a variable. Modifiers in front of
the type and variables behind it change nothing. -/
theorem TypeRef.parse_first_type (text : String) :
    (∀ ref, parse text = .ok ref → ∃ before node after tree,
      tokenize (host text) = some (hostOpening ++ (before ++ (node ++ after))) ∧ ReadBefore node after tree ∧
      AtVariable after ∧ tree.toRef referencePath = .ok ref) ∧
    ∀ (words : List String) (spelling : List Lexeme) (names : List String) (tree : TypeTree),
      PlainModifiers words → ReadsAs spelling tree →
      (∀ name ∈ names, isPlainName name = true) →
      Spells ((words.flatMap fun word => [.word word]) ++ (spelling ++ names.flatMap fun name => [.word name, .mark ","]))
        text.toList →
      parse text = tree.toRef referencePath := by
  refine ⟨fun ref h => ?_, fun words spelling names tree hwords hreads hnames htext =>
    hreads.parse_field hwords hnames htext⟩
  unfold parse at h
  split at h
  · rename_i tree hdeclared
    obtain ⟨⟨items, c⟩, hread, hdeclared⟩ := Option.bind_eq_some_iff.mp hdeclared
    obtain ⟨tokens, htokens, hrun⟩ := Option.bind_eq_some_iff.mp hread
    obtain ⟨body, rfl⟩ := tokenize_host htokens
    have hbody : (Law.typedIn body).Holds ⟨body, 19, none⟩ := ⟨⟨[], rfl⟩, nofun⟩
    have hlaw := holds_behind_host hbody hrun
    obtain ⟨before, node, after, rfl, hnode, hafter⟩ := hlaw.2 tree hdeclared
    exact ⟨before, node, after, tree, htokens, hnode, hafter, h⟩
  · cases h

theorem TypeRef.parse_first_type_modified :
    parse "public static int first," = .ok (.builtin .int none) ∧ ∃ before node after tree,
      tokenize (host "public static int first,") = some (hostOpening ++ (before ++ (node ++ after))) ∧
      ReadBefore node after tree ∧ AtVariable after ∧ tree.toRef referencePath = .ok (.builtin .int none) := by
  have hparse : parse "public static int first," = .ok (.builtin .int none) :=
    (parse_first_type _).2 ["public", "static"] [.word "int"] ["first"] _ (by unfold PlainModifiers; decide)
      (@ReadsAs.builtin [] .int nofun) (by decide +kernel) (spells_of_isSpelledBy (by decide +kernel))
  exact ⟨hparse, (parse_first_type _).1 _ hparse⟩

/-- Texts with a modifier, an attribute, a variable and a member besides the type. -/
theorem TypeRef.parse_more_than_type :
    ["public int", "[Mark] int", "int first,", "int first; string"].map
      (fun text => (parse text).toOption.map TypeRef.text) = List.replicate 4 (some "int") := by
  decide +kernel

end TypeAtlas
