import TypeAtlas.Proofs.Spelling

/-!
Reading the types of a plan. Main statement: a type that is in scope is read as the tree
that its spelling stands for, whatever follows it that does not go on with a type.
-/

namespace TypeAtlas.Source.Reader

variable {F G : Option Lexeme → Prop} {g : Grammar} {Q : List Token → TypeTree → Prop}

/-! Where nothing begins. -/

/-- The text ends here, or a mark stands here that opens no tuple. -/
def NoType (next : Option Lexeme) : Prop := ∀ lexeme, next = some lexeme → lexeme.kind = .mark ∧ lexeme.text ≠ "("

lemma NoType.ne_word {next : Option Lexeme} (h : NoType next) (text : String) : next ≠ some (.word text) := by
  intro heq
  have hkind := (h _ heq).1
  cases hkind

lemma noType_mark {text : String} (h : text ≠ "(") : NoType (some (.mark text)) := by
  rintro _ ⟨⟩
  exact ⟨rfl, h⟩

lemma atImplicit_passes (h : ∀ next, F next → next ≠ some (.word "var")) :
    Takes atImplicit [] F fun _ found => found = false := by
  refine .nil fun rest _ _ _ hnext => ?_
  cases rest with
  | nil => exact ⟨false, rfl, rfl⟩
  | cons first rest =>
    refine ⟨_, rfl, ?_⟩
    rw [isWord_eq_false (h _ hnext)]
    rfl

lemma type_refuses : Refuses (type g) [] NoType := by
  refine .nil fun rest stop declared hplain hnext => ?_
  cases rest with
  | nil => rfl
  | cons first rest =>
    obtain ⟨hkind, hne⟩ := hnext first.lexeme rfl
    replace hkind : first.kind = .mark := hkind
    have hparen : isMark "(" first = false :=
      isMark_eq_false fun heq => hne (congrArg Lexeme.text (Option.some.inj heq))
    have hword : ∀ word, isWord word first = false := fun word => isWord_eq_false (hnext.ne_word word)
    obtain ⟨found, hrun, rfl⟩ := atImplicit_passes (fun next h => NoType.ne_word h "var") []
      (first :: rest) stop declared rfl hplain hnext
    unfold type
    simp only [StateT.run_bind, StateT.run_get, Option.pure_def, Option.bind_eq_bind, Option.bind_some,
      List.nil_append, hparen, hword, hkind, Bool.false_eq_true, if_false] at hrun ⊢
    rw [hrun]
    rfl

lemma grammar_type_refuses (depth : Nat) : Refuses (grammar depth).type [] NoType := by
  cases depth with
  | zero => exact Refuses.failure
  | succ depth => exact type_refuses

/-- The text ends here, or one of the marks inside the brackets of an array stands here. -/
def NoOperand (next : Option Lexeme) : Prop :=
  ∀ lexeme, next = some lexeme → lexeme = .mark "]" ∨ lexeme = .mark ","

lemma NoOperand.noType {next : Option Lexeme} (h : NoOperand next) : NoType next := by
  intro lexeme hlexeme
  rcases h lexeme hlexeme with rfl | rfl <;> decide

lemma NoOperand.ne_mark {next : Option Lexeme} (h : NoOperand next) {text : String} (hclose : text ≠ "]")
    (hcomma : text ≠ ",") : next ≠ some (.mark text) := by
  intro heq
  rcases h _ heq with heq | heq
  · exact hclose (congrArg Lexeme.text heq)
  · exact hcomma (congrArg Lexeme.text heq)

lemma query_refuses (h : ∀ next, F next → next ≠ some (.word "from")) : Refuses (query g) [] F := by
  refine (atKeyword_passes h).look_refuse_eq ?_
  exact Refuses.failure

lemma atLambda_passes : Takes atLambda [] NoOperand fun _ found => found = false := by
  refine .nil fun rest _ _ _ hnext => ⟨_, rfl, ?_⟩
  cases rest with
  | nil => rfl
  | cons first rest =>
    obtain ⟨kind, text, start, gap, notes⟩ := first
    rcases hnext _ rfl with heq | heq
    all_goals
      obtain ⟨rfl, rfl⟩ := Lexeme.mk.inj heq
      rfl

lemma attributedLambda_refuses : Refuses (attributedLambda g) [] NoOperand := by
  have hlook : Takes (atMark "[") [] NoOperand fun _ found => found = false :=
    atMark_passes fun next hnext => hnext.ne_mark (by decide) (by decide)
  refine hlook.look_refuse_eq ?_
  exact Refuses.failure.bind

lemma functionModifiers_passes (h : ∀ next, F next → NoType next) :
    Takes functionModifiers [] F fun _ _ => True := by
  have hstop : Refuses (do
      if ← ahead [fun _ => true, isMark "=>"] then failure
      keyword "async" <|> keyword "static") [] F := by
    refine (ahead_takes _).andRefuse fun found => ?_
    cases found with
    | true => exact Refuses.failure.bind
    | false =>
      exact Refuses.orElse (keyword_refuses fun next hnext => (h next hnext).ne_word _)
        (keyword_refuses fun next hnext => (h next hnext).ne_word _)
  exact (TakesTo.many_none hstop).bind_pure fun _ _ _ => trivial

lemma typedLambda_refuses (hg : Refuses g.type [] NoType) : Refuses (typedLambda g) [] NoOperand :=
  (functionModifiers_passes (F := NoOperand) fun _ hnext => hnext.noType).refuse
    (fun _ _ _ => hg.bind.follow fun _ hnext => hnext.noType) fun _ hnext => hnext

lemma primary_refuses : Refuses (primary g) [] NoOperand := by
  refine .nil fun rest _ _ _ hnext => ?_
  cases rest with
  | nil => rfl
  | cons first rest =>
    obtain ⟨kind, text, start, gap, notes⟩ := first
    rcases hnext _ rfl with heq | heq
    all_goals
      obtain ⟨rfl, rfl⟩ := Lexeme.mk.inj heq
      rfl

lemma operand_refuses : Refuses (operand g) [] NoOperand := by
  have hleading : Takes (many do
      nextIf fun token => token.kind == .mark && leadingMarks.contains token.text) [] NoOperand fun _ xs => xs = [] := by
    refine TakesTo.many_none (nextIf_refuses fun token hnext => ?_)
    obtain ⟨kind, text, start, gap, notes⟩ := token
    rcases hnext _ rfl with heq | heq
    all_goals
      obtain ⟨rfl, rfl⟩ := Lexeme.mk.inj heq
      rfl
  have hawaits : Takes (ahead [isWord "await", fun token => token.kind != .mark]) [] NoOperand fun _ found =>
      found = false := by
    refine .nil fun rest _ _ _ hnext => ⟨_, rfl, ?_⟩
    cases rest with
    | nil => rfl
    | cons first rest =>
      have hword := isWord_eq_false (hnext.noType.ne_word "await")
      cases rest with
      | nil => rfl
      | cons second rest => simp [hword]
  have hrange : Takes (atMark "..") [] NoOperand fun _ found => found = false :=
    atMark_passes fun next hnext => hnext.ne_mark (by decide) (by decide)
  refine hleading.look_refuse fun leading hleading => ?_
  refine hawaits.look_refuse fun awaits hawaits => ?_
  subst hleading hawaits
  refine hrange.look_refuse_eq ?_
  exact primary_refuses.bind

lemma expression_refuses (hg : Refuses g.type [] NoType) : Refuses (expression g) [] NoOperand := by
  refine Refuses.orElse (query_refuses fun next hnext => hnext.noType.ne_word _) ?_
  refine atLambda_passes.look_refuse_eq ?_
  exact attributedLambda_refuses.orElse (operand_refuses.bind.bind.orElse (typedLambda_refuses hg))

lemma grammar_expression_refuses (depth : Nat) : Refuses (grammar depth).expression [] NoOperand := by
  cases depth with
  | zero => exact Refuses.failure
  | succ depth => exact expression_refuses (grammar_type_refuses depth)

/-! The brackets of arrays. -/

/-- What follows a type does not go on with it. -/
def EndsType (next : Option Lexeme) : Prop :=
  ∀ text ∈ [".", "<", "::", "?", "*", "["], next ≠ some (.mark text)

lemma endsType_word (text : String) : EndsType (some (.word text)) := by
  intro text _ heq
  cases heq

lemma endsType_mark {text : String} (h : text ∉ [".", "<", "::", "?", "*", "["]) :
    EndsType (some (.mark text)) := by
  intro other hother heq
  cases heq
  exact h hother

/-- What follows a name does not go on with it. -/
def EndsName (next : Option Lexeme) : Prop := ∀ text ∈ [".", "<", "::"], next ≠ some (.mark text)

lemma EndsType.endsName {next : Option Lexeme} (h : EndsType next) : EndsName next := by
  intro text htext
  apply h
  simp only [List.mem_cons, List.not_mem_nil, or_false] at htext ⊢
  tauto

lemma arrayRank_takes (hg : Refuses g.expression [] NoOperand) {rank : Nat} (hrank : rank ≠ 0) :
    Takes (arrayRank g) (bracketSpelling rank) F fun _ found => found = rank := by
  have hnone : Takes (optional g.expression) [] NoOperand fun _ found => found = none := TakesTo.optional_none hg
  have hcommas : Takes (many do
      mark ","
      let _ ← optional g.expression) ((List.replicate (rank - 1) ()).flatMap fun _ => [.mark ","])
      (· = some (.mark "]")) fun _ => List.Forall₂ (fun _ _ => True) (List.replicate (rank - 1) ()) := by
    refine TakesTo.many (F := NoOperand) (fun _ _ => ?_) (fun _ _ => ⟨by simp, ?_⟩) ?_ ?_
    · exact (mark_takes (F := NoOperand) ",").bind (t := []) (fun _ _ _ => hnone.bind_pure fun _ _ _ => trivial)
        fun _ hnext => hnext
    · rintro _ ⟨⟩
      exact .inr rfl
    · rintro _ rfl _ ⟨⟩
      exact .inl rfl
    · exact (mark_refuses_other (by decide)).bind
  have hspelling : bracketSpelling rank =
      [.mark "["] ++ ((List.replicate (rank - 1) ()).flatMap (fun _ => [.mark ","]) ++ [.mark "]"]) := by
    rw [bracketSpelling, ← List.map_eq_flatMap, List.map_replicate]
    rfl
  rw [hspelling]
  refine (mark_takes "[").andThen fun _ _ _ => ?_
  refine hnone.look (fun _ _ => ?_) fun _ _ => ?_
  · refine hcommas.bind (fun tokens commas hcommas => ?_) fun _ _ => rfl
    refine (mark_takes "]").bind_pure fun _ _ _ => ?_
    have hlength := hcommas.length_eq
    rw [List.length_replicate] at hlength
    omega
  · rw [upcoming_append]
    refine upcoming_flatMap (fun _ _ => ⟨by simp, ?_⟩) ?_
    · rintro _ ⟨⟩
      exact .inr rfl
    · rintro _ ⟨⟩
      exact .inl rfl

/-- Where neither a question mark nor an asterisk stands, only brackets can follow a type. -/
lemma suffixed_brackets {start : List Token} {n : Nat} {allowed : Suffixes} {tree : TypeTree} {s : List Lexeme}
    (hnext : ∀ next, F next → upcoming s next ≠ some (.mark "?") ∧ upcoming s next ≠ some (.mark "*"))
    (h : Takes (do
      if ← atMark "[" then
        match ← optional (arrayRank g) with
        | some rank => suffixed g start n ⟨true, false⟩ (.array tree rank)
        | none => pure tree
      else pure tree) s F Q) : Takes (suffixed g start (n + 1) allowed tree) s F Q := by
  have hquestion : Takes (atMark "?") [] (· ≠ some (.mark "?")) fun _ found => found = false :=
    atMark_passes fun _ hnext => hnext
  have hasterisk : Takes (atMark "*") [] (· ≠ some (.mark "*")) fun _ found => found = false :=
    atMark_passes fun _ hnext => hnext
  refine hquestion.look_eq ?_ fun next hF => (hnext next hF).1
  refine hasterisk.look_eq ?_ fun next hF => (hnext next hF).2
  exact h

lemma suffixed_takes (hg : Refuses g.expression [] NoOperand) (start : List Token) {ranks : List Nat}
    (hranks : ∀ rank ∈ ranks, rank ≠ 0) {n : Nat} (hn : ranks.length ≤ n) (allowed : Suffixes) (tree : TypeTree) :
    Takes (suffixed g start n allowed tree) (ranks.flatMap bracketSpelling) EndsType fun _ found =>
      found = ranks.foldl .array tree := by
  induction ranks generalizing n allowed tree with
  | nil =>
    cases n with
    | zero => exact .pure rfl
    | succ n =>
      refine suffixed_brackets (fun next hnext => ⟨hnext "?" (by decide), hnext "*" (by decide)⟩) ?_
      refine (atMark_passes fun next hnext => hnext "[" (by decide)).look_eq ?_
        fun _ hnext => hnext
      exact .pure rfl
  | cons rank ranks ih =>
    obtain ⟨n, rfl⟩ : ∃ k, n = k + 1 := ⟨n - 1, by simp at hn; omega⟩
    refine suffixed_brackets (fun next _ => ?_) ?_
    · constructor <;> simp [bracketSpelling]
    · refine (atMark_finds "[").look_eq ?_ fun _ _ => rfl
      have hrank := hranks rank List.mem_cons_self
      refine (arrayRank_takes hg hrank).optional_some.andThen ?_
      rintro _ _ ⟨_, rfl, rfl⟩
      exact ih (List.forall_mem_cons.mp hranks).2 (Nat.le_of_succ_le_succ hn)
        ⟨true, false⟩ (.array tree _)

lemma suffixed_question {start : List Token} {n : Nat} {pointer : Bool} {tree : TypeTree} {s : List Lexeme}
    {Q : TypeTree → Prop}
    (h : Takes (suffixed g start n ⟨false, pointer⟩ (.wrapped tree)) s F fun _ x => Q x) :
    Takes (suffixed g start (n + 1) ⟨true, pointer⟩ tree) (.mark "?" :: s) F fun _ x => Q x := by
  refine (atMark_finds "?").look_eq ?_ fun _ _ => rfl
  exact (next_takes _).andThen (s := [.mark "?"]) fun _ _ _ => h

/-! Names with dots and arguments. -/

lemma noteTypes_takes : Takes noteTypes [] F fun _ found => found = [] :=
  notes_takes.bind_pure fun _ _ hfound => by rw [hfound, List.map_nil]

lemma typeArgument_takes {s : List Lexeme} {tree : TypeTree} (h : Takes g.type s F fun _ found => found = tree) :
    Takes (typeArgument g) s F fun _ found => found = [tree] := by
  refine (noteTypes_takes (F := fun _ => True)).look_eq ?_ fun _ _ => trivial
  refine h.bind_nil fun _ type htype => ?_
  subst htype
  exact noteTypes_takes.bind_pure fun _ _ hafter => by rw [hafter]; rfl

section

variable {ι : Type} {items : List ι} {spell : ι → List Lexeme} {tree : ι → TypeTree}
  (htake : ∀ i ∈ items, Takes g.type (spell i) EndsType fun _ found => found = tree i)

include htake

lemma typeArguments_takes
    (hitems : items ≠ []) (hfirst : ∀ i ∈ items, ∃ word, (spell i).head? = some (.word word)) :
    Takes (typeArguments g) (angled (items.map spell)) F fun _ found => found = items.map tree := by
  obtain ⟨i, items, rfl⟩ := List.exists_cons_of_ne_nil hitems
  have hword : ∀ next, ∃ word, upcoming (commas spell (i :: items) ++ [.mark ">"]) next = some (.word word) := by
    intro next
    obtain ⟨word, hhead⟩ := hfirst i List.mem_cons_self
    refine ⟨word, ?_⟩
    simp [commas, upcoming, hhead]
  have hpass : ∀ text next, upcoming (commas spell (i :: items) ++ [.mark ">"]) next ≠ some (.mark text) := by
    intro text next
    obtain ⟨word, hnext⟩ := hword next
    rw [hnext]
    rintro ⟨⟩
  rw [angled_map hitems]
  refine (mark_takes "<").andThen fun _ _ _ => ?_
  refine (atMark_passes (F := (· ≠ some (.mark ","))) fun _ h => h).look_eq ?_
    fun next _ => hpass "," next
  refine (atMark_passes (F := (· ≠ some (.mark ">"))) fun _ h => h).look_eq ?_
    fun next _ => hpass ">" next
  refine (TakesTo.commaList1 (F := EndsType) (G := (· = some (.mark ">"))) (T := fun j found => found = [tree j])
    (fun j hj => typeArgument_takes (htake j hj)) (endsType_mark (by decide)) ?_).bind ?_ fun _ _ => rfl
  · rintro _ rfl
    exact ⟨endsType_mark (by decide), by decide⟩
  · intro _ args hargs
    refine (mark_takes ">").bind_pure fun _ _ _ => ?_
    rw [eq_map_of_forall₂ hargs, ← List.flatMap_def, ← List.map_eq_flatMap]

lemma simpleType_takes
    (hfirst : ∀ i ∈ items, ∃ word, (spell i).head? = some (.word word)) (text : String) :
    Takes (simpleType g text) (angled (items.map spell)) (· ≠ some (.mark "<")) fun _ found =>
      found = PlanType.nameTree text (items.map tree) := by
  cases items with
  | nil => exact (atMark_passes fun _ hnext => hnext).look_eq (.pure rfl) fun _ hnext => hnext
  | cons i items =>
    refine (atMark_finds "<").look_eq ?_ fun _ _ => rfl
    have hargs := typeArguments_takes (F := (· ≠ some (.mark "<"))) htake (by simp) hfirst
    refine hargs.optional_some.bind_nil ?_
    rintro _ _ ⟨_, rfl, rfl⟩
    exact .pure rfl

end

/-- Where no dot stands, a name is over. -/
lemma dotted_ends (start : List Token) (n : Nat) (tree : TypeTree) :
    Takes (dotted g start n tree) [] (· ≠ some (.mark ".")) fun _ found => found = tree := by
  cases n with
  | zero => exact .pure rfl
  | succ n => exact (atMark_passes fun _ hnext => hnext).look_eq (.pure rfl) fun _ hnext => hnext

/-- One more part of a name. What stands before its dot is the qualifier. -/
lemma dotted_step {part : String} {s : List Lexeme} {t : TypeTree}
    (hpart : Takes (simpleType g part) s F fun _ found => found = t) {before tokens rest : List Token}
    (hspelling : tokens.map Token.lexeme = .mark "." :: .word part :: s) (hplain : Plain (before ++ (tokens ++ rest)))
    (hbefore : before ≠ []) (hnext : F (rest.head?.map Token.lexeme)) (n stop : Nat) (declared : Option TypeTree)
    (tree : TypeTree) :
    (dotted g (before ++ (tokens ++ rest)) (n + 1) tree).run ⟨tokens ++ rest, stopAfter stop before, declared⟩ =
      (dotted g (before ++ (tokens ++ rest)) n (.qualified (cleanName (textOf before)) t)).run
        ⟨rest, stopAfter stop (before ++ tokens), declared⟩ := by
  have htaken := takeWhile_taken stop hplain hbefore
  obtain ⟨dot, others, rfl, hdot, hothers⟩ := List.map_eq_cons_iff.mp hspelling
  have hat : isMark "." dot = true := by rw [isMark_eq, hdot, beq_self_eq_true]
  have hread : Takes (do simpleType g (← name)) (.word part :: s) F fun _ found => found = t := by
    refine (name_takes part).andThen (s := [.word part]) fun _ found hfound => ?_
    subst hfound
    exact hpart
  obtain ⟨_, hrun, found, rfl, rfl⟩ := hread.optional_some others rest dot.stop declared hothers hplain.behind.tail hnext
  have hlook : (atMark ".").run ⟨dot :: others ++ rest, stopAfter stop before, declared⟩ =
      some (true, ⟨dot :: others ++ rest, stopAfter stop before, declared⟩) := by
    change some ((some dot).any (isMark "."), _) = _
    rw [Option.any_some, hat]
  have htake : next.run ⟨dot :: others ++ rest, stopAfter stop before, declared⟩ =
      some (dot, ⟨others ++ rest, dot.stop, declared⟩) := rfl
  rw [dotted]
  simp only [StateT.run_bind, StateT.run_get, Option.pure_def, Option.bind_eq_bind, Option.bind_some, hlook,
    if_true, htake, hrun, htaken, stopAfter_append]
  rfl

lemma simpleType_bare (text : String) :
    Takes (simpleType g text) [] (· ≠ some (.mark "<")) fun _ found => found = .simple text :=
  (atMark_passes fun _ hnext => hnext).look_eq (.pure rfl) fun _ hnext => hnext

lemma dotted_run {last : String} {s : List Lexeme} {t : TypeTree}
    (hlast : Takes (simpleType g last) s EndsName fun _ found => found = t) {middle parts : List String}
    {before tokens rest : List Token} (hparts : parts ≠ []) (hnames : ∀ part ∈ parts ++ middle, isIdentifier part = true)
    (hbefore : before.map Token.lexeme = pathSpelling parts)
    (hspelling : tokens.map Token.lexeme = middle.flatMap dotPart ++ (dotPart last ++ s))
    (hplain : Plain (before ++ (tokens ++ rest))) (hnext : EndsName (rest.head?.map Token.lexeme)) {n : Nat}
    (hn : middle.length < n) (stop : Nat) (declared : Option TypeTree) (tree : TypeTree) :
    (dotted g (before ++ (tokens ++ rest)) n tree).run ⟨tokens ++ rest, stopAfter stop before, declared⟩ =
      some (.qualified (Text.joinWith "." (parts ++ middle)) t, ⟨rest, stopAfter stop (before ++ tokens), declared⟩) := by
  obtain ⟨n, rfl⟩ : ∃ k, n = k + 1 := ⟨n - 1, by omega⟩
  have hne : before ≠ [] := by
    rintro rfl
    obtain ⟨first, parts, rfl⟩ := List.exists_cons_of_ne_nil hparts
    cases hbefore
  have hname : cleanName (textOf before) = Text.joinWith "." parts :=
    cleanName_textOf hplain.front (fun part hpart => hnames part (List.mem_append_left middle hpart)) hbefore
  induction middle generalizing parts before tokens n tree with
  | nil =>
    rw [dotted_step hlast hspelling hplain hne hnext, hname, List.append_nil]
    obtain ⟨_, hrun, rfl⟩ := dotted_ends (g := g) (before ++ (tokens ++ rest)) n
      (.qualified (Text.joinWith "." parts) t) [] rest (stopAfter stop (before ++ tokens)) declared rfl
      hplain.behind.behind (hnext "." (by decide))
    exact hrun
  | cons part middle ih =>
    rw [List.flatMap_cons, List.append_assoc] at hspelling
    obtain ⟨first, others, rfl, hfirst, hothers⟩ := List.map_eq_append_iff.mp hspelling
    have hdot : (others ++ rest).head?.map Token.lexeme = some (.mark ".") := by
      rw [head?_append_lexeme, hothers]
      cases middle <;> rfl
    have hbeforeFirst : (before ++ first).map Token.lexeme = pathSpelling (parts ++ [part]) := by
      rw [List.map_append, hbefore, hfirst, pathSpelling_append hparts]
      simp
    rw [List.append_assoc first others rest] at hplain ⊢
    rw [dotted_step (simpleType_bare part) hfirst hplain hne (by rw [hdot]; decide)]
    rw [← List.append_assoc before first] at hplain ⊢
    obtain ⟨n, rfl⟩ : ∃ k, n = k + 1 := ⟨n - 1, by simp at hn; omega⟩
    have hparts' : ∀ other ∈ (parts ++ [part]) ++ middle, isIdentifier other = true := by
      simpa using hnames
    have hnameFirst := cleanName_textOf hplain.front
      (fun other hother => hparts' other (List.mem_append_left middle hother)) hbeforeFirst
    rw [ih (by simp) hparts' hbeforeFirst hothers hplain _ n (by simp at hn; omega) (by simp [hne]) hnameFirst]
    simp

lemma ofKeyword?_eq_none {text : String} (h : isIdentifier text = true) : Builtin.ofKeyword? text = none := by
  rw [Builtin.ofKeyword?, List.find?_eq_none]
  intro type _
  have hword : type.keyword ∈ keywords := by cases type <;> decide
  rw [beq_iff_eq]
  exact fun heq => ne_of_isIdentifier h hword heq.symm

lemma plainName_takes {text : String} (h : isIdentifier text = true) :
    Takes plainName [.word text] F fun _ found => found = text := by
  refine (nextIf_takes fun token htoken => ?_).bind_pure fun _ _ htoken => congrArg Lexeme.text htoken.2
  have hkind : token.kind = .word := congrArg Lexeme.kind htoken
  have htext : token.text = text := congrArg Lexeme.text htoken
  rw [hkind, htext, ofKeyword?_eq_none h]
  rfl

/-- A name of one part. -/
lemma typeName_single {text : String} (h : isIdentifier text = true) {s : List Lexeme} {t : TypeTree}
    (htake : Takes (simpleType g text) s EndsName fun _ found => found = t)
    (hfollow : ∀ next, EndsName next → upcoming s next ≠ some (.mark "::")) :
    Takes (typeName g) (.word text :: s) EndsName fun _ found => found = t := by
  refine get_looks.look_any fun start => ?_
  refine (plainName_takes h).andThen (s := [.word text]) fun _ found hfound => ?_
  subst hfound
  refine (markIf_passes (F := (· ≠ some (.mark "::"))) fun _ hnext => hnext).look_eq ?_ hfollow
  refine htake.bind_nil fun _ tree htree => ?_
  subst htree
  exact (dotted_ends _ _ _).follow fun _ hnext => hnext "." (by decide)

lemma typeName_qualified {first last : String} {middle : List String}
    (hparts : ∀ part ∈ first :: middle, isIdentifier part = true) {s : List Lexeme} {t : TypeTree}
    (hlast : Takes (simpleType g last) s EndsName fun _ found => found = t) :
    Takes (typeName g) (pathSpelling (first :: middle ++ [last]) ++ s) EndsName fun _ found =>
      found = .qualified (Text.joinWith "." (first :: middle)) t := by
  intro tokens rest stop declared hspelling hplain hnext
  have hpath : pathSpelling (first :: middle ++ [last]) ++ s =
      .word first :: (middle.flatMap dotPart ++ (dotPart last ++ s)) := by
    rw [List.cons_append, pathSpelling, List.flatMap_append]
    simp
  rw [hpath] at hspelling
  obtain ⟨token, others, rfl, htoken, hothers⟩ := List.map_eq_cons_iff.mp hspelling
  have hdot : (others ++ rest).head?.map Token.lexeme = some (.mark ".") := by
    rw [head?_append_lexeme, hothers]
    cases middle <;> rfl
  obtain ⟨_, hname, heq⟩ := plainName_takes (F := fun _ => True) (hparts first List.mem_cons_self) [token]
    (others ++ rest) stop declared (by rw [List.map_singleton, htoken]) hplain trivial
  rw [heq] at hname
  obtain ⟨_, halias, rfl⟩ := markIf_other (show "::" ≠ "." by decide) [] (others ++ rest) token.stop declared rfl hplain.tail hdot
  obtain ⟨_, hfirst, rfl⟩ := simpleType_bare (g := g) first [] (others ++ rest) token.stop declared rfl
    hplain.tail (by rw [hdot]; decide)
  have hbefore : [token].map Token.lexeme = pathSpelling [first] := by
    rw [List.map_singleton, htoken]
    rfl
  have hmiddle : middle.length < (token :: (others ++ rest)).length := by
    have hlength := congrArg List.length hothers
    have hle : middle.length ≤ (middle.flatMap dotPart).length := length_le_length_flatMap (by simp [dotPart])
    simp only [List.length_map, List.length_append] at hlength
    simp only [List.length_cons, List.length_append]
    omega
  have hrest := dotted_run hlast (List.cons_ne_nil first []) hparts hbefore hothers hplain hnext hmiddle stop
    declared (.simple first)
  refine ⟨_, ?_, rfl⟩
  unfold typeName
  have hstop : stopAfter stop [token] = token.stop := rfl
  simp only [List.cons_append, List.nil_append, hstop, StateT.run_bind, StateT.run_get, Option.pure_def,
    Option.bind_eq_bind, Option.bind_some] at hname halias hfirst hrest ⊢
  rw [hname, Option.bind_some, halias, Option.bind_some, if_neg Bool.false_ne_true, StateT.run_bind, stopAfter,
    List.foldl_nil, hfirst]
  exact hrest

/-- What is read of a name behind the parts of its qualifier. -/
def qualifiedTree : List String → TypeTree → TypeTree
  | [], last => last
  | parts, last => .qualified (Text.joinWith "." parts) last

lemma typeName_takes {parts : List String} {last : String}
    (hparts : ∀ part ∈ parts ++ [last], isIdentifier part = true) {s : List Lexeme} {t : TypeTree}
    (hlast : Takes (simpleType g last) s EndsName fun _ found => found = t)
    (hfollow : ∀ next, EndsName next → upcoming s next ≠ some (.mark "::")) :
    Takes (typeName g) (pathSpelling (parts ++ [last]) ++ s) EndsName fun _ found => found = qualifiedTree parts t := by
  cases parts with
  | nil => exact typeName_single (hparts last List.mem_cons_self) hlast hfollow
  | cons first middle => exact typeName_qualified (fun part hpart => hparts part (List.mem_append_left _ hpart)) hlast

/-! Types. -/

section

variable {s t : List Lexeme} {tree : TypeTree} {word : String}

/-- A type that begins with a word: a builtin type or a name, and the marks behind it. -/
lemma type_word (hnot : word ∉ ["ref", "delegate", "var"])
    (h : ∀ start n, s.length ≤ n → Takes (match Builtin.ofKeyword? word with
      | some builtin => do
        let _ ← next
        suffixed g start n ⟨true, true⟩ (.builtin builtin)
      | none => do
        match ← optional (scopedType g) with
        | some tree => return tree
        | none => suffixed g start n ⟨true, true⟩ (← typeName g)) (.word word :: s) F Q) :
    Takes (type g) (.word word :: s) F Q := by
  intro tokens rest stop declared hspelling hplain hnext
  obtain ⟨first, others, rfl, hfirst, hothers⟩ := List.map_eq_cons_iff.mp hspelling
  have hlength : s.length ≤ (first :: (others ++ rest)).length := by
    rw [← hothers, List.length_map, List.length_cons, List.length_append]
    omega
  have hword : ∀ other ∈ ["ref", "delegate", "var"], isWord other first = false := by
    intro other hmem
    refine isWord_eq_false ?_
    rw [hfirst]
    rintro ⟨⟩
    exact hnot hmem
  have hparen : isMark "(" first = false := isMark_eq_false (by rw [hfirst]; simp)
  have himplicit : atImplicit.run ⟨first :: (others ++ rest), stop, declared⟩ =
      some (false, ⟨first :: (others ++ rest), stop, declared⟩) := by
    change some (isWord "var" first && _, _) = _
    rw [hword "var" (by decide)]
    rfl
  obtain ⟨hkind, rfl⟩ := Lexeme.mk.inj hfirst
  obtain ⟨x, hrun, hx⟩ := h (first :: (others ++ rest)) _ hlength (first :: others) rest stop declared hspelling hplain hnext
  refine ⟨x, .trans ?_ hrun, hx⟩
  unfold type
  simp only [StateT.run_bind, StateT.run_get, Option.pure_def, Option.bind_eq_bind, Option.bind_some, List.cons_append,
    hparen, hword "ref" (by decide), hword "delegate" (by decide), Bool.false_eq_true, if_false]
  rw [himplicit, Option.bind_some]
  rw [hkind]
  cases Builtin.ofKeyword? first.text <;> rfl

lemma type_builtin {builtin : Builtin} (hsuffix : ∀ start n, t.length ≤ n →
      Takes (suffixed g start n ⟨true, true⟩ (.builtin builtin)) t F fun _ x => x = tree) :
    Takes (type g) (.word builtin.keyword :: t) F fun _ x => x = tree := by
  refine type_word (by cases builtin <;> decide) fun start n hn => ?_
  rw [Builtin.ofKeyword?_keyword]
  exact (next_takes _).andThen (s := [.word builtin.keyword]) fun _ _ _ => hsuffix start n hn

lemma type_named {name : TypeTree} (hword : isIdentifier word = true)
    (htake : Takes (typeName g) (.word word :: s) EndsName fun _ x => x = name)
    (hsuffix : ∀ start n, t.length ≤ n → Takes (suffixed g start n ⟨true, true⟩ name) t F fun _ x => x = tree)
    (hfollow : ∀ next, F next → EndsName (upcoming t next)) :
    Takes (type g) (.word word :: s ++ t) F fun _ x => x = tree := by
  have hkeywords : ∀ other ∈ ["ref", "delegate", "var"], other ∈ keywords := by decide
  refine type_word (fun hmem => ne_of_isIdentifier hword (hkeywords word hmem) rfl) fun start n hn => ?_
  rw [ofKeyword?_eq_none hword]
  have hne := ne_of_isIdentifier hword (show "scoped" ∈ keywords by decide)
  refine (TakesTo.optional_none (keyword_refuses_other hne.symm).bind).look_eq ?_ fun _ _ => rfl
  refine htake.bind (fun _ found hfound => ?_) hfollow
  subst hfound
  exact hsuffix start n (Nat.le_trans (List.sublist_append_right s t).length_le hn)

end

/-- A word that begins a type stands here. -/
def StartsType (next : Option Lexeme) : Prop :=
  ∃ word, next = some (.word word) ∧ (isIdentifier word = true ∨ ∃ builtin : Builtin, word = builtin.keyword)

lemma StartsType.ne_mark {next : Option Lexeme} (h : StartsType next) (text : String) : next ≠ some (.mark text) := by
  obtain ⟨_, rfl, -⟩ := h
  simp

lemma StartsType.notMem {next : Option Lexeme} (h : StartsType next) {words : List String}
    (hwords : ∀ word ∈ words, word ∈ keywords ∧ Builtin.ofKeyword? word = none) {word : String}
    (hnext : next = some (.word word)) : word ∉ words := by
  obtain ⟨first, rfl, hfirst⟩ := h
  obtain rfl : first = word := congrArg Lexeme.text (Option.some.inj hnext)
  intro hmem
  rcases hfirst with hname | ⟨builtin, rfl⟩
  · exact ne_of_isIdentifier hname (hwords first hmem).1 rfl
  · have hnone := (hwords _ hmem).2
    rw [Builtin.ofKeyword?_keyword] at hnone
    cases hnone

end TypeAtlas.Source.Reader

namespace TypeAtlas

variable {spelling : List Lexeme} {place : Nat}

open Source Source.Reader

/-- A spelling that is read as one type, wherever nothing follows that would go on with it. It begins
with a word, behind which a mark stands if anything. -/
structure ReadsAs (spelling : List Lexeme) (tree : TypeTree) : Prop where
  head : ∃ word rest, spelling = .word word :: rest ∧ StartsType (some (.word word)) ∧ NoType rest.head?
  takes : ∀ {depth}, spelling.length ≤ depth → Takes (grammar depth).type spelling EndsType fun _ x => x = tree
  lexical : Lexical spelling

namespace ReadsAs

lemma starts {tree : TypeTree} (h : ReadsAs spelling tree) (more : List Lexeme)
    (next : Option Lexeme) : StartsType (upcoming (spelling ++ more) next) := by
  obtain ⟨word, rest, rfl, hstart, -⟩ := h.head
  exact hstart

lemma exists_depth {tree : TypeTree} (h : ReadsAs spelling tree) {depth : Nat}
    (hdepth : spelling.length ≤ depth) : ∃ less, depth = less + 1 := by
  obtain ⟨word, rest, rfl, -⟩ := h.head
  exact Nat.exists_eq_add_one.mpr (Nat.lt_of_lt_of_le (Nat.succ_pos _) hdepth)

variable {word : String} {rest : List Lexeme} {tree : TypeTree} {ranks : List Nat}

lemma of_type (hstart : StartsType (some (.word word))) (hrest : NoType rest.head?)
    (hlexical : Lexical (.word word :: rest))
    (htake : ∀ depth, rest.length ≤ depth → Takes (Reader.type (grammar depth)) (.word word :: rest) EndsType fun _ x => x = tree) :
    ReadsAs (.word word :: rest) tree where
  head := ⟨word, rest, rfl, hstart, hrest⟩
  takes := fun {depth} hdepth => by
    cases depth with
    | zero => cases hdepth
    | succ depth => exact htake depth (Nat.le_of_succ_le_succ hdepth)
  lexical := hlexical

/-! The brackets of arrays. -/

lemma noType_brackets (ranks : List Nat) : NoType (ranks.flatMap bracketSpelling).head? := by
  cases ranks with
  | nil => exact nofun
  | cons rank ranks => exact noType_mark (by decide)

lemma brackets_take (hranks : ∀ rank ∈ ranks, rank ≠ 0) (depth : Nat) (allowed : Suffixes) (tree : TypeTree)
    (start : List Token) (n : Nat) (hn : (ranks.flatMap bracketSpelling).length ≤ n) :
    Takes (suffixed (grammar depth) start n allowed tree) (ranks.flatMap bracketSpelling) EndsType fun _ x =>
      x = ranks.foldl .array tree := by
  have hle : ranks.length ≤ (ranks.flatMap bracketSpelling).length :=
    length_le_length_flatMap (by simp [bracketSpelling])
  exact suffixed_takes (grammar_expression_refuses depth) start hranks (by omega) allowed tree

lemma endsName_brackets {next : Option Lexeme} (hnext : EndsType next) :
    EndsName (upcoming (ranks.flatMap bracketSpelling) next) := by
  refine upcoming_flatMap (fun rank _ => ⟨by simp [bracketSpelling], ?_⟩) hnext.endsName
  intro text htext heq
  cases heq
  simp at htext

lemma builtin (b : Builtin) (hranks : ∀ rank ∈ ranks, rank ≠ 0) :
    ReadsAs (.word b.keyword :: ranks.flatMap bracketSpelling) (ranks.foldl .array (.builtin b)) :=
  of_type ⟨_, rfl, .inr ⟨b, rfl⟩⟩ (noType_brackets ranks) (lexical_cons.mpr ⟨isLexical_keyword b, lexical_brackets ranks⟩)
    fun depth _ => type_builtin (brackets_take hranks depth ⟨true, true⟩ _)

lemma nullable (b : Builtin) (hranks : ∀ rank ∈ ranks, rank ≠ 0) :
    ReadsAs (.word b.keyword :: .mark "?" :: ranks.flatMap bracketSpelling) (ranks.foldl .array (.wrapped (.builtin b))) := by
  refine of_type ⟨_, rfl, .inr ⟨b, rfl⟩⟩ (noType_mark (by decide)) (lexical_cons.mpr ⟨isLexical_keyword b,
    lexical_cons.mpr ⟨by decide, lexical_brackets ranks⟩⟩) fun depth _ => type_builtin fun start n hn => ?_
  obtain ⟨n, rfl⟩ : ∃ k, n = k + 1 := ⟨n - 1, by simp at hn; omega⟩
  exact suffixed_question (brackets_take hranks depth ⟨false, true⟩ _ start n (Nat.le_of_succ_le_succ hn))

lemma named {ι : Type} {items : List ι} {spell : ι → List Lexeme} {tree : ι → TypeTree} {parts : List String}
    {last : String} (hparts : ∀ part ∈ parts ++ [last], isIdentifier part = true)
    (hitems : ∀ i ∈ items, ReadsAs (spell i) (tree i)) (hranks : ∀ rank ∈ ranks, rank ≠ 0) :
    ReadsAs (pathSpelling (parts ++ [last]) ++ (angled (items.map spell) ++ ranks.flatMap bracketSpelling))
      (ranks.foldl .array (qualifiedTree parts (PlanType.nameTree last (items.map tree)))) := by
  obtain ⟨word, others, hpath⟩ : ∃ word others, parts ++ [last] = word :: others :=
    List.exists_cons_of_ne_nil (by simp)
  have hword : isIdentifier word = true := hparts word (by simp [hpath])
  have hlexical : Lexical (pathSpelling (parts ++ [last]) ++ (angled (items.map spell) ++ ranks.flatMap bracketSpelling)) := by
    refine lexical_append.mpr ⟨lexical_path hparts, lexical_append.mpr ⟨lexical_angled ?_, lexical_brackets ranks⟩⟩
    exact List.forall_mem_map.mpr fun i hi => (hitems i hi).lexical
  have hmark : NoType (others.flatMap dotPart ++ (angled (items.map spell) ++ ranks.flatMap bracketSpelling)).head? := by
    cases others with
    | cons => exact noType_mark (by decide)
    | nil =>
      cases items with
      | nil => exact noType_brackets ranks
      | cons => exact noType_mark (by decide)
  have hspelled : pathSpelling (parts ++ [last]) = .word word :: others.flatMap dotPart := by rw [hpath, pathSpelling]
  rw [hspelled, List.cons_append] at hlexical ⊢
  refine of_type ⟨word, rfl, .inl hword⟩ hmark hlexical fun depth hdepth => ?_
  have htake : ∀ i ∈ items, Takes (grammar depth).type (spell i) EndsType fun _ x => x = tree i := by
    intro i hi
    have hle : (spell i).length ≤ (commas spell items).length := length_le_length_commas hi
    rw [angled_map (List.ne_nil_of_mem hi)] at hdepth
    simp only [List.length_append] at hdepth
    exact (hitems i hi).takes (by omega)
  have hlast := simpleType_takes htake (fun i hi => by
    obtain ⟨first, rest, hspell, -⟩ := (hitems i hi).head
    exact ⟨first, by rw [hspell, List.head?_cons]⟩) last
  have hname := typeName_takes hparts (hlast.follow (G := EndsName) fun _ hnext => hnext "<" (by decide))
    fun next hnext => by
      cases items with
      | nil => exact hnext "::" (by decide)
      | cons i items => simp [angled]
  rw [hspelled, List.cons_append] at hname
  have htype := type_named hword hname (brackets_take hranks depth ⟨true, true⟩ _) fun _ => endsName_brackets
  rwa [List.cons_append, List.append_assoc] at htype

/-- A name of one part without arguments. -/
lemma simple (hword : isIdentifier word = true) (hranks : ∀ rank ∈ ranks, rank ≠ 0) :
    ReadsAs (.word word :: ranks.flatMap bracketSpelling) (ranks.foldl .array (.simple word)) :=
  @named _ Empty [] nofun nofun [] word (List.forall_mem_singleton.mpr hword) nofun hranks

end ReadsAs

/-- The names that types in a scope are written with are plain. -/
structure PlanScope.Named (decls : List PlanDecl) (scope : PlanScope) : Prop where
  arities : scope.arities = decls.map PlanDecl.arity
  decls : ∀ d ∈ decls, d.spaces ≠ [] ∧ (∀ part ∈ d.spaces, isPlainName part = true) ∧ isPlainName d.name = true
  typeParams : ∀ name ∈ scope.typeParams, isPlainName name = true
  methodParams : ∀ name ∈ scope.methodParams, isPlainName name = true

lemma PlanScope.Named.inMethod {decls : List PlanDecl} {scope : PlanScope} (h : scope.Named decls)
    {generics : List PlanParam} (hnames : ∀ param ∈ generics, isPlainName param.name = true) :
    (scope.inMethod generics).Named decls :=
  { h with
    methodParams := by
      intro name hname
      obtain ⟨param, hparam, rfl⟩ := List.mem_map.mp hname
      exact hnames param hparam }

namespace PlanType

variable {decls : List PlanDecl} {scope : PlanScope}

lemma isPlainName_paramName (hscope : scope.Named decls) {owner : ParamOwner}
    (hscoped : (PlanType.param owner place).inScope scope = true) : isPlainName (paramName scope owner place) = true := by
  cases owner with
  | type =>
    obtain ⟨name, hname, -⟩ := Option.any_eq_true .. |>.mp hscoped
    rw [paramName, List.getD_eq_getElem?_getD, hname]
    exact hscope.typeParams name (List.mem_of_getElem? hname)
  | method =>
    have hlt : place < scope.methodParams.length := of_decide_eq_true hscoped
    rw [paramName, List.getD_eq_getElem?_getD, List.getElem?_eq_getElem hlt]
    exact hscope.methodParams _ (List.getElem_mem hlt)

lemma exists_declared (hscope : scope.Named decls) {args : List PlanType}
    (hscoped : (PlanType.declared place args).inScope scope = true) :
    ∃ d ∈ decls, decls[place]? = some d ∧ d.arity = args.length ∧ ∀ arg ∈ args, arg.inScope scope = true := by
  obtain ⟨hplace, hargs⟩ := inScope_declared hscoped
  rw [hscope.arities, List.getElem?_map] at hplace
  obtain ⟨d, hd, harity⟩ := Option.map_eq_some_iff.mp hplace
  exact ⟨d, List.mem_of_getElem? hd, hd, harity, inScopeEach_iff.mp hargs⟩

lemma ranks_ne_zero : ∀ {type : PlanType}, type.inScope scope = true → ∀ rank ∈ type.ranks, rank ≠ 0
  | .builtin _, _ => by simp [ranks]
  | .nullable _, _ => by simp [ranks]
  | .param .., _ => by simp [ranks]
  | .declared .., _ => by simp [ranks]
  | .array element rank, hscoped => by
    rw [inScope, Bool.and_eq_true, decide_eq_true_eq] at hscoped
    intro other hother
    rcases List.mem_cons.mp hother with rfl | hother
    · exact hscoped.1
    · exact ranks_ne_zero hscoped.2 other hother

mutual

lemma stem_readsAs (hscope : scope.Named decls) : ∀ type : PlanType, type.inScope scope = true →
    ∀ ranks : List Nat, (∀ rank ∈ ranks, rank ≠ 0) →
    ReadsAs (type.stem decls scope ++ ranks.flatMap bracketSpelling) (ranks.foldl .array (type.stemTree decls scope))
  | .builtin b, _, _, hranks => .builtin b hranks
  | .nullable b, _, _, hranks => .nullable b hranks
  | .param owner place, hscoped, _, hranks =>
    .simple (isIdentifier_of_isPlainName (isPlainName_paramName hscope hscoped)) hranks
  | .declared place args, hscoped, ranks, hranks => by
    obtain ⟨d, hmem, hd, -, hargs⟩ := exists_declared hscope hscoped
    obtain ⟨hne, hparts, hname⟩ := hscope.decls d hmem
    have htree : (PlanType.declared place args).stemTree decls scope =
        qualifiedTree d.spaces (nameTree d.name (args.map (tree decls scope))) := by
      obtain ⟨first, middle, hspaces⟩ := List.exists_cons_of_ne_nil hne
      simp only [stemTree, hd, PlanDecl.ns, hspaces, treeEach_eq_map, qualifiedTree]
    rw [htree, stem, hd, Option.map_some, Option.getD_some, PlanDecl.path, spellEach_eq_map, List.append_assoc]
    refine .named (fun part hpart => isIdentifier_of_isPlainName ?_) (each_readsAs hscope args hargs) hranks
    exact List.forall_mem_append.mpr ⟨hparts, List.forall_mem_singleton.mpr hname⟩ part hpart
  | .array element rank, hscoped, ranks, hranks => by
    rw [inScope, Bool.and_eq_true] at hscoped
    rw [stem, stemTree]
    exact stem_readsAs hscope element hscoped.2 ranks hranks

lemma each_readsAs (hscope : scope.Named decls) : ∀ types : List PlanType,
    (∀ type ∈ types, type.inScope scope = true) → ∀ type ∈ types,
    ReadsAs (type.spelling decls scope) (type.tree decls scope)
  | [], _ => fun _ h => nomatch h
  | first :: rest, hscoped => by
    have hfirst := hscoped first List.mem_cons_self
    have hreads := stem_readsAs hscope first hfirst first.ranks (ranks_ne_zero hfirst)
    have hrest := each_readsAs hscope rest (List.forall_mem_cons.mp hscoped).2
    exact List.forall_mem_cons.mpr ⟨hreads, hrest⟩

end

/-- A type is read as it is meant. -/
lemma readsAs (hscope : scope.Named decls) {type : PlanType} (hscoped : type.inScope scope = true) :
    ReadsAs (type.spelling decls scope) (type.tree decls scope) :=
  stem_readsAs hscope type hscoped type.ranks (ranks_ne_zero hscoped)

end PlanType

end TypeAtlas
