import TypeAtlas.Proofs.PhraseLaws
import TypeAtlas.Source.Handle

/-!
What reading patterns and statements keeps. With them, phrases nested to any depth keep every law
(`grammar_keeps`).
-/

namespace TypeAtlas.Source.Reader

variable {law : Law} {g : Grammar}

lemma atVariable_of_declarator {c c' : Cursor} {x : Unit} (h : (declarator g).run c = some (x, c')) :
    AtVariable c.rest := by
  obtain ⟨_, mid, hname, -⟩ := exists_of_run_bind h
  rcases run_or_of_run_orElse hname with hname | hname
  · obtain ⟨_, _, hmark, -⟩ := exists_of_run_bind hname
    obtain ⟨token, _, hmark, -⟩ := exists_of_run_bind hmark
    obtain ⟨rest, hrest, htoken, -⟩ := exists_of_run_nextIf hmark
    exact ⟨token, rest, hrest, .inr htoken⟩
  · obtain ⟨_, _, hname, -⟩ := exists_of_run_bind hname
    obtain ⟨token, _, hname, -⟩ := exists_of_run_bind hname
    obtain ⟨rest, hrest, htoken, -⟩ := exists_of_run_nextIf hname
    exact ⟨token, rest, hrest, .inl (eq_of_beq htoken)⟩

variable (hg : g.Keeps law)

include hg

@[grind .]
lemma subpattern_keeps : Keeps law (subpattern g) := by
  unfold subpattern
  grind

@[grind .]
lemma subpatterns_keeps (opening closing : String) :
    Keeps law (subpatterns g opening closing) := by
  unfold subpatterns
  grind

@[grind .]
lemma constant_keeps : Keeps law (constant g) := by
  unfold constant
  grind

@[grind .]
lemma nullableArray_keeps : Keeps law (patternType.nullableArray g) := by
  unfold patternType.nullableArray
  grind

@[grind .]
lemma patternType_keeps : Keeps law (patternType g) := by
  unfold patternType
  refine .bind (nextIf_keeps _) fun token _ => ?_
  split
  · grind
  · refine .bind (markIf_keeps _) fun _ _ => .bind (operandArguments_keeps hg) fun _ _ => ?_
    refine .bind (.many ?_) fun _ _ => ?_ <;> grind

@[grind .]
lemma typePattern_keeps : Keeps law (typePattern g) := by
  unfold typePattern
  grind

@[grind .]
lemma basicPattern_keeps : Keeps law (basicPattern g) := by
  unfold basicPattern
  refine .bind (.many (keyword_keeps _)) fun _ _ => .bind peek?_keeps fun next _ => ?_
  cases next with
  | none => exact .failure
  | some token =>
    dsimp only
    split
    · grind
    · grind
    · split <;> grind

@[grind .]
lemma pattern_keeps : Keeps law (pattern g) := by
  unfold pattern
  grind

@[grind .]
lemma initialElement_keeps : Keeps law (initialElement g) := by
  unfold initialElement
  grind

@[grind .]
lemma initialiser_keeps : Keeps law (initialiser g) := by
  unfold initialiser
  grind

/-! Statements. -/

@[grind .]
lemma declarator_keeps : Keeps law (declarator g) := by
  unfold declarator
  grind

/-- The type of a variable is told where the variable stands behind it. -/
@[grind .]
lemma typedNames_keeps (reserved : List String) : Keeps law (typedNames g reserved) := by
  intro c x c' hc hrun
  obtain ⟨_, _, ⟨⟩, hrun⟩ := exists_of_run_bind hrun
  obtain ⟨tree, mid, htype, hrun⟩ := exists_of_run_bind hrun
  obtain ⟨found, _, ⟨⟩, hrun⟩ := exists_of_run_bind hrun
  split at hrun
  · obtain ⟨_, _, ⟨⟩, _⟩ := exists_of_run_bind hrun
  obtain ⟨names, behind, hnames, hrun⟩ := exists_of_run_bind hrun
  have hat : AtVariable mid.rest := by
    obtain ⟨_, _, hfirst, -⟩ := exists_of_run_bind hnames
    exact atVariable_of_declarator hfirst
  have hmid := (hg.type c tree mid hc htype).2
  have hbehind := (commaList1_keeps (declarator_keeps hg) _ _ _ hmid hnames).2
  exact declare_keeps hc (hg.told hc htype hat) behind x c' hbehind hrun

@[grind .]
lemma functionBody_keeps : Keeps law (functionBody g) := by
  unfold functionBody
  grind

@[grind .]
lemma localFunction_keeps : Keeps law (localFunction g) := by
  unfold localFunction
  refine .bind (attributeLists_keeps hg) fun _ _ => .bind (.many modifier_keeps) fun _ _ => ?_
  grind

@[grind .]
lemma localVariables_keeps : Keeps law (localVariables g) := by
  unfold localVariables
  grind

@[grind .]
lemma expressionStatement_keeps : Keeps law (expressionStatement g) := by
  unfold expressionStatement
  grind

@[grind .]
lemma tested_keeps : Keeps law (tested g) := by
  unfold tested
  grind

@[grind .]
lemma forHead_keeps : Keeps law (forHead g) := by
  unfold forHead
  refine .bind (mark_keeps _) fun _ _ => .bind (.optional ?_) fun _ _ => ?_ <;> grind

@[grind .]
lemma foreachHead_keeps : Keeps law (foreachHead g) := by
  unfold foreachHead
  refine .bind (mark_keeps _) fun _ _ => .bind (.orElse ?_ ?_) fun _ _ => ?_ <;> grind

@[grind .]
lemma switchLabel_keeps : Keeps law (switchLabel g) := by
  unfold switchLabel
  refine .bind (.orElse ?_ (keyword_keeps _)) fun _ _ => mark_keeps _
  grind

@[grind .]
lemma switchSection_keeps : Keeps law (switchSection g) := by
  unfold switchSection
  grind

@[grind .]
lemma catchClause_keeps : Keeps law (catchClause g) := by
  unfold catchClause
  refine .bind (keyword_keeps _) fun _ _ => .bind (.optional ?_) fun _ _ => ?_ <;> grind

@[grind .]
lemma acquired_keeps : Keeps law (acquired g) := by
  unfold acquired
  grind

@[grind .]
lemma wordStatement_keeps (word : String) : Keeps law (wordStatement g word) := by
  unfold wordStatement
  grind

@[grind .]
lemma labelled_keeps : Keeps law (labelled g) := by
  unfold labelled
  grind

@[grind .]
lemma statement_keeps : Keeps law (statement g) := by
  unfold statement
  grind

end TypeAtlas.Source.Reader

namespace TypeAtlas.Source

open Reader

/-- Phrases keep the law however deep they are nested. -/
lemma grammar_keeps {law : Law} (depth : Nat) : (grammar depth).Keeps law := by
  induction depth with
  | zero => exact ⟨.failure, fun _ hrun => (not_offers_failure ⟨_, _, hrun⟩).elim, .failure, .failure, .failure,
      .failure, .failure⟩
  | succ depth ih =>
    exact ⟨type_gives ih, fun hc hrun hat => @law.told (depth + 1) _ _ _ hc hrun hat (type_gives ih _ _ _ hc hrun).1,
      expression_keeps ih, condition_keeps ih, pattern_keeps ih, initialiser_keeps ih, statement_keeps ih⟩

end TypeAtlas.Source
