import TypeAtlas.Proofs.ReaderLaws

/-!
What reading phrases keeps. Headers and expressions keep every law if the phrases inside them do.
Where a reader takes many steps, its proof goes along with it for a while.
-/

namespace TypeAtlas.Source.Reader

variable {law : Law} {g : Grammar} {last : Reader Unit}

/-! Words and marks, with no phrases inside. -/

@[grind .]
lemma attributeTarget_keeps : Keeps law attributeTarget := by
  unfold attributeTarget
  grind

@[grind .]
lemma bareConstraint_keeps : Keeps law bareConstraint := by
  unfold bareConstraint
  grind

@[grind .]
lemma literal_keeps : Keeps law literal := by
  unfold literal
  grind

@[grind .]
lemma atOperand_keeps : Keeps law atOperand := by
  unfold atOperand
  grind

@[grind .]
lemma atLambda_keeps : Keeps law atLambda := by
  unfold atLambda
  grind

@[grind .]
lemma functionModifiers_keeps : Keeps law functionModifiers := by
  unfold functionModifiers
  grind

@[grind .]
lemma adjacentMark_keeps (text : String) : Keeps law (adjacentMark text) := by
  unfold adjacentMark
  grind

@[grind .]
lemma operator_keeps : Keeps law operator := by
  unfold operator
  grind

@[grind .]
lemma nullableEnd_keeps : Keeps law nullableEnd := by
  unfold nullableEnd
  grind

@[grind .]
lemma designation_keeps : Keeps law designation := by
  unfold designation
  grind

@[grind .]
lemma designations_keeps (n : Nat) : Keeps law (designations n) := by
  induction n with
  | zero => exact designation_keeps
  | succ n ih =>
    unfold designations
    grind

@[grind .]
lemma modifier_keeps : Keeps law modifier := by
  unfold modifier
  grind

@[grind .]
lemma namePattern_keeps (n : Nat) : Keeps law (namePattern n) := by
  induction n with
  | zero => exact .failure
  | succ n ih =>
    unfold namePattern
    grind

variable (hg : g.Keeps law)

include hg

/-! Parts of headers. -/

@[grind .]
lemma attributeArgument_keeps : Keeps law (attributeArgument g) := by
  unfold attributeArgument
  grind

@[grind .]
lemma oneAttribute_keeps : Keeps law (oneAttribute g) := by
  unfold oneAttribute
  refine .bind (withText_keeps ?_) fun _ _ => .pure _
  grind

@[grind .]
lemma attributeList_keeps : Keeps law (attributeList g) := by
  unfold attributeList
  grind

@[grind .]
lemma attributeLists_keeps : Keeps law (attributeLists g) := by
  unfold attributeLists
  grind

@[grind .]
lemma typeParams_keeps : Keeps law (typeParams g) := by
  unfold typeParams
  grind

@[grind .]
lemma typedParam_keeps : Keeps law (typedParam g) := by
  unfold typedParam
  grind

@[grind .]
lemma param_keeps : Keeps law (param g) := by
  unfold param
  refine .bind (withText_keeps ?_) fun _ _ => .pure _
  refine .bind (attributeLists_keeps hg) fun _ _ => .bind (.many (nextIf_keeps _)) fun _ _ => ?_
  grind

@[grind .]
lemma params_keeps : Keeps law (params g) := by
  unfold params
  grind

@[grind .]
lemma constraint_keeps : Keeps law (constraint g) := by
  unfold constraint
  grind

@[grind .]
lemma constraints_keeps : Keeps law (constraints g) := by
  unfold constraints
  grind

/-! Expressions and patterns. -/

@[grind .]
lemma block_keeps : Keeps law (block g) := by
  unfold block
  grind

@[grind .]
lemma lambdaBody_keeps : Keeps law (lambdaBody g) := by
  unfold lambdaBody
  grind

@[grind .]
lemma lambda_keeps : Keeps law (lambda g) := by
  unfold lambda
  grind

@[grind .]
lemma typedLambda_keeps : Keeps law (typedLambda g) := by
  unfold typedLambda
  grind

@[grind .]
lemma anonymousFunction_keeps : Keeps law (anonymousFunction g) := by
  unfold anonymousFunction
  grind

@[grind .]
lemma inlineVariable_keeps : Keeps law (inlineVariable g) := by
  unfold inlineVariable
  grind

@[grind .]
lemma argument_keeps : Keeps law (argument g) := by
  unfold argument
  grind

@[grind .]
lemma arguments_keeps (opening closing : String) : Keeps law (arguments g opening closing) := by
  unfold arguments
  grind

@[grind .]
lemma parenthesised_keeps : Keeps law (parenthesised g) := by
  unfold parenthesised
  grind

@[grind .]
lemma collection_keeps : Keeps law (collection g) := by
  unfold collection
  grind

@[grind .]
lemma cast_keeps : Keeps law (cast g) := by
  unfold cast
  grind

@[grind .]
lemma typeOperand_keeps : Keeps law (typeOperand g) := by
  unfold typeOperand
  grind

@[grind .]
lemma creation_keeps : Keeps law (creation g) := by
  unfold creation
  grind

@[grind .]
lemma stackCreation_keeps : Keeps law (stackCreation g) := by
  unfold stackCreation
  grind

@[grind .]
lemma operandArguments_keeps : Keeps law (operandArguments g) := by
  unfold operandArguments
  refine .bind (atMark_keeps _) fun opened _ => ?_
  split
  · refine .bind (.optional (.bind (typeArguments_keeps hg) fun _ _ => ?_)) fun _ _ => .pure _
    grind
  · exact .pure _

@[grind .]
lemma wordOperand_keeps : Keeps law (wordOperand g) := by
  unfold wordOperand
  grind

@[grind .]
lemma primary_keeps : Keeps law (primary g) := by
  unfold primary
  grind

@[grind .]
lemma trailer_keeps : Keeps law (trailer g) := by
  unfold trailer
  refine .bind peek?_keeps fun next _ => ?_
  cases next with
  | none => exact .failure
  | some token =>
    dsimp only
    split
    · exact .failure
    · split <;> grind

@[grind .]
lemma operand_keeps : Keeps law (operand g) := by
  unfold operand
  grind

@[grind .]
lemma switchArms_keeps : Keeps law (switchArms g) := by
  unfold switchArms
  refine .bind (mark_keeps _) fun _ _ => .bind (commaList_keeps ?_) fun _ _ => ?_ <;> grind

@[grind ←]
lemma continuation_keeps (hlast : Keeps law last) :
    Keeps law (continuation g last) := by
  unfold continuation
  refine .bind peek?_keeps fun next _ => ?_
  cases next with
  | none => exact .failure
  | some token =>
    dsimp only
    split
    · exact .failure
    · split <;> grind
    · grind

@[grind .]
lemma querySource_keeps : Keeps law (queryClause.source g) := by
  unfold queryClause.source
  grind

@[grind .]
lemma queryClause_keeps : Keeps law (queryClause g) := by
  unfold queryClause
  refine .bind (nextIf_keeps _) fun token _ => ?_
  split
  · grind
  · grind
  · grind
  · refine .bind (querySource_keeps hg) fun _ _ => .bind (keyword_keeps _) fun _ _ => ?_
    refine .bind hg.expression fun _ _ => ?_
    grind
  · grind
  · grind

@[grind .]
lemma queryEnd_keeps : Keeps law (queryEnd g) := by
  unfold queryEnd
  grind

@[grind .]
lemma query_keeps : Keeps law (query g) := by
  unfold query
  refine .bind (atKeyword_keeps _) fun _ _ => ?_
  split
  · refine .bind (.many (queryClause_keeps hg)) fun _ _ => .bind (queryEnd_keeps hg) fun _ _ => ?_
    grind
  · exact .failure

@[grind .]
lemma attributedLambda_keeps : Keeps law (attributedLambda g) := by
  unfold attributedLambda
  grind

@[grind ←]
lemma chain_keeps (hlast : Keeps law last) : Keeps law (chain g last) := by
  unfold chain
  grind

@[grind .]
lemma condition_keeps : Keeps law (condition g) := by
  unfold condition
  grind

@[grind .]
lemma expression_keeps : Keeps law (expression g) := by
  unfold expression
  grind

end TypeAtlas.Source.Reader
