import TypeAtlas.Proofs.ShapeTracking

/-!
What a shape refers to. Its references are the declarations in its uses, in the same order,
and only those of its bases are references of inheritance.
-/

namespace TypeAtlas

variable {target : DeclId} {P : DeclId → Prop} {shape : Shape}

/-- What a use leads to is its own declaration and what its arguments lead to. -/
lemma Use.mem_targets {use : Use} :
    target ∈ use.targets ↔ use.target? = some target ∨ ∃ arg ∈ use.args, target ∈ arg.targets := by
  have heach : ∀ args : List Use, target ∈ Use.targetsEach args ↔ ∃ arg ∈ args, target ∈ arg.targets := by
    intro args
    induction args with
    | nil => simp [Use.targetsEach]
    | cons arg args ih => simp [Use.targetsEach, ih]
  cases use with
  | declared id args array => simp [Use.targets, Use.target?, Use.args, heach, eq_comm]
  | builtin type array => simp [Use.targets, Use.target?, Use.args]
  | param name position owner array => simp [Use.targets, Use.target?, Use.args]

lemma Use.forall_targets {use : Use} (hself : ∀ target, use.target? = some target → P target)
    (hargs : ∀ arg ∈ use.args, ∀ target ∈ arg.targets, P target) : ∀ target ∈ use.targets, P target := by
  intro target hmem
  rcases Use.mem_targets.mp hmem with htarget | ⟨arg, harg, hmem⟩
  · exact hself target htarget
  · exact hargs arg harg target hmem

lemma Use.targets_withArray (use : Use) (array : Option ArrayShape) :
    (use.withArray array).targets = use.targets := by
  cases use <;> rfl

/-- With other arguments a use leads to nothing but its own declaration and what they lead
to. -/
lemma Use.mem_targets_withArgs {use : Use} {args : List Use} (h : target ∈ (use.withArgs args).targets) :
    target ∈ use.targets ∨ ∃ arg ∈ args, target ∈ arg.targets := by
  rcases Use.mem_targets.mp h with hself | ⟨arg, harg, hmem⟩
  · refine .inl (Use.mem_targets.mpr (.inl ?_))
    cases use <;> exact hself
  · cases use with
    | declared id _ array => exact .inr ⟨arg, harg, hmem⟩
    | builtin type array => cases harg
    | param name position owner array => cases harg

/-- What is known of the declarations that a use leads to is inherited. -/
lemma Work.Regime.Inherits.of_targets {ρ : Regime} {P : Atlas → DeclId → Prop}
    (h : ∀ a u, ρ.known a u ↔ ∀ target ∈ u.targets, P a target) : ρ.Inherits where
  builtin a type array := (h a _).mpr fun _ hmem => by cases hmem
  param a name position owner array := (h a _).mpr fun _ hmem => by cases hmem
  args a u hknown arg harg := (h a arg).mpr fun target hmem =>
    (h a u).mp hknown target (Use.mem_targets.mpr (.inr ⟨arg, harg, hmem⟩))
  withArray a u array hknown := by
    rw [h, Use.targets_withArray]
    exact (h a u).mp hknown
  withArgs a u args hknown hargs := by
    refine (h a _).mpr fun target hmem => ?_
    rcases Use.mem_targets_withArgs hmem with hself | ⟨arg, harg, hmem⟩
    · exact (h a u).mp hknown target hself
    · exact (h a arg).mp (hargs arg harg) target hmem

/-- A use refers to its own declaration by the kind of the place, and to those inside it as
generic arguments. -/
lemma Use.mem_references {kind kind' : EdgeKind} (use : Use) :
    (kind', target) ∈ use.references kind ↔ (kind' = kind ∧ use.target? = some target) ∨
      (kind' = .genericArgument ∧ target ∈ Use.targetsEach use.args) := by
  cases use with
  | declared id args array =>
    simp only [Use.references, Use.targets, Use.target?, Use.args, List.mem_cons, Prod.mk.injEq,
      List.mem_map, Option.some.injEq]
    refine or_congr (and_congr_right fun _ => eq_comm) ?_
    constructor
    · rintro ⟨_, hmem, rfl, rfl⟩
      exact ⟨rfl, hmem⟩
    · rintro ⟨rfl, hmem⟩
      exact ⟨target, hmem, rfl, rfl⟩
  | builtin type array => simp [Use.references, Use.targets, Use.target?, Use.args, Use.targetsEach]
  | param name position owner array =>
    simp [Use.references, Use.targets, Use.target?, Use.args, Use.targetsEach]

lemma Attribute.not_inherits_mem_references (target : DeclId) (a : Attribute) :
    (EdgeKind.inherits, target) ∉ a.references := by
  simp [Attribute.references, Use.mem_references]

lemma GenericParam.not_inherits_mem_references (target : DeclId) (param : GenericParam) :
    (EdgeKind.inherits, target) ∉ param.references := by
  simp [GenericParam.references, Use.mem_references]

lemma Member.not_inherits_mem_references (target : DeclId) (member : Member) :
    (EdgeKind.inherits, target) ∉ member.references := by
  cases member with
  | property p =>
    simp [Member.references, Use.mem_references, Attribute.not_inherits_mem_references]
  | method m =>
    simp [Member.references, Use.mem_references, Attribute.not_inherits_mem_references,
      GenericParam.not_inherits_mem_references]

/-- Only the bases of a shape are inherited from. -/
lemma Shape.inherits_mem_references :
    (EdgeKind.inherits, target) ∈ shape.references ↔
      ∃ use ∈ shape.bases, use.target? = some target := by
  simp [Shape.references, GenericParam.not_inherits_mem_references,
    Attribute.not_inherits_mem_references, Member.not_inherits_mem_references, Use.mem_references]

lemma Use.map_references (kind : EdgeKind) (use : Use) :
    (use.references kind).map (·.2) = use.targets := by
  unfold Use.references
  split
  · rename_i htargets
    exact htargets.symm
  · rename_i first rest htargets
    simp [htargets, Function.comp_def]

lemma GenericParam.map_references (param : GenericParam) :
    param.references.map (·.2) = param.uses.flatMap Use.targets := by
  simp only [GenericParam.references, GenericParam.uses, List.map_flatMap, Use.map_references]

lemma Attribute.map_references (a : Attribute) :
    a.references.map (·.2) = a.uses.flatMap Use.targets := by
  simp [Attribute.references, Attribute.uses, Use.map_references]

lemma Member.map_references (member : Member) :
    member.references.map (·.2) = member.uses.flatMap Use.targets := by
  cases member with
  | property p =>
    simp [Member.references, Member.uses, Property.uses, List.map_flatMap, List.flatMap_assoc,
      Use.map_references, Attribute.map_references]
  | method m =>
    simp [Member.references, Member.uses, Method.uses, List.map_flatMap, List.flatMap_assoc,
      List.flatMap_map, Use.map_references, Attribute.map_references,
      GenericParam.map_references]

/-- A shape refers to the declarations in its uses, in the order of the uses. -/
lemma Shape.map_references (shape : Shape) :
    shape.references.map (·.2) = shape.uses.flatMap Use.targets := by
  simp [Shape.references, Shape.uses, List.map_flatMap, List.flatMap_assoc, Use.map_references,
    GenericParam.map_references, Attribute.map_references, Member.map_references]

lemma Shape.forall_references
    (h : ∀ use ∈ shape.uses, ∀ target ∈ use.targets, P target) : ∀ target ∈ shape.references.map (·.2), P target := by
  rw [Shape.map_references]
  intro target hmem
  obtain ⟨use, huse, hmem⟩ := List.mem_flatMap.mp hmem
  exact h use huse target hmem

end TypeAtlas
