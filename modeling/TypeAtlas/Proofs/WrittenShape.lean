import TypeAtlas.Proofs.DeclarationReading
import TypeAtlas.Proofs.KnownShapes

/-!
Loading from source that was read. Each type in it is resolved to the use that the plan has in
its place, so a declaration gets the shape that is planned for it
(`PlanDecl.ReadAs.writtenShape_yields`).
-/

namespace TypeAtlas

variable {place : Nat}

open Source Work

variable {d : PlanDecl} {name : String}

/-! Brackets behind a type. -/

/-- The array part that brackets make. -/
def ArrayShape.ofRanks : List Nat → Option ArrayShape
  | [] => none
  | rank :: ranks => some ⟨rank :: ranks⟩

lemma ArrayShape.wrap_ofRanks (ranks : List Nat) (rank : Nat) :
    some (wrap (ofRanks ranks) rank) = ofRanks (rank :: ranks) := by
  cases ranks <;> rfl

lemma Use.withArray_withArray (use : Use) (inner outer : Option ArrayShape) :
    (use.withArray inner).withArray outer = use.withArray outer := by
  cases use <;> rfl

lemma Use.array_withArray (use : Use) (array : Option ArrayShape) : (use.withArray array).array = array := by
  cases use <;> rfl

lemma Use.withArray_array (use : Use) : use.withArray use.array = use := by cases use <;> rfl

/-- Brackets are pushed one by one in the order they are written. -/
lemma Source.TypeTree.toRef_brackets {path : String} {tree : TypeTree} {ref : TypeRef} {array : Option ArrayShape}
    (h : tree.toRef path = .ok (ref.withArray array)) (ranks : List Nat) :
    (ranks.foldl .array tree).toRef path = .ok (ref.withArray (ArrayShape.join array (ArrayShape.ofRanks ranks))) := by
  induction ranks generalizing tree array with
  | nil =>
    rw [List.foldl_nil, h]
    cases array <;> rfl
  | cons rank ranks ih =>
    have hpush : (ref.withArray array).pushRank rank = ref.withArray (ArrayShape.join array (some ⟨[rank]⟩)) := by
      cases ref <;> cases array <;> rfl
    have hjoin : ArrayShape.join (ArrayShape.join array (some ⟨[rank]⟩)) (ArrayShape.ofRanks ranks) =
        ArrayShape.join array (ArrayShape.ofRanks (rank :: ranks)) := by
      cases array <;> cases ranks <;> simp [ArrayShape.join, ArrayShape.ofRanks]
    have hfirst : (TypeTree.array tree rank).toRef path =
        .ok (ref.withArray (ArrayShape.join array (some ⟨[rank]⟩))) := by
      rw [TypeTree.toRef, h, ← hpush]
      rfl
    rw [List.foldl_cons, ih hfirst, hjoin]

/-- What is used as an array has the brackets that are written. -/
lemma PlanType.array_use (ids : Nat → DeclId) (s : PlanScope) :
    ∀ type : PlanType, (type.use ids s).array = ArrayShape.ofRanks type.ranks
  | .builtin _ | .nullable _ | .declared _ _ => by rw [use]; rfl
  | .param owner _ => by cases owner <;> rw [use] <;> rfl
  | .array element rank => by
    rw [use, Use.wrapRank, Use.array_withArray, array_use ids s element, ArrayShape.wrap_ofRanks]
    rfl

/-! Names. -/

lemma PlanDecl.fullName_eq (hne : d.spaces ≠ []) (hparts : ∀ part ∈ d.spaces, isPlainName part = true) :
    d.fullName = d.ns ++ "." ++ d.name := by
  have hempty : d.ns.isEmpty = false := by
    obtain ⟨first, rest, hspaces⟩ := List.exists_cons_of_ne_nil hne
    have hfirst := isPlainName_ne_empty (hparts first (by simp [hspaces]))
    rw [ns, hspaces, Bool.eq_false_iff, Ne, String.isEmpty_iff]
    cases rest with
    | nil => exact hfirst
    | cons second rest =>
      intro heq
      have htext := congrArg String.toList heq
      rw [Text.joinWith, String.toList_append, String.toList_append] at htext
      · exact hfirst (String.toList_eq_nil_iff.mp (by simp_all))
      · exact fun heq => by cases heq
  rw [fullName, qualify, hempty]
  rfl

lemma idxOf?_of_nodup {names : List String} (hnodup : names.Nodup) (h : names[place]? = some name) :
    names.idxOf? name = some place := by
  obtain ⟨hlt, rfl⟩ := List.getElem?_eq_some_iff.mp h
  refine List.idxOf?_eq_some_iff.mpr ⟨hlt, rfl, fun j hj heq => ?_⟩
  have hsame := hnodup.getElem_inj_iff.mp heq
  omega

/-- A scope that types of some declarations are written in: their parameters are told apart, and
declarations at the location come first. -/
structure PlanScope.Written (s : PlanScope) (decls : List PlanDecl) (location : String) (scope : Scope) : Prop
    extends s.Seen scope where
  named : s.Named decls
  location : scope.location = location
  distinct : s.typeParams.Nodup ∧ s.methodParams.Nodup

section Resolution

variable {decls : List PlanDecl} {plan : Plan} {location : String} {ids : Nat → DeclId} {P : Atlas → Prop}
  {found : Use → Work Unit} {inAlias : TypeRef → Work Use} {s : PlanScope} {scope : Scope}
  {params : List (String × PlanType)} {before after : List GenericParam} {generics : List PlanParam}
  {type : PlanType}

lemma PlanScope.Written.paramFor? (h : s.Written decls location scope) (ids : Nat → DeclId)
    {owner : ParamOwner} (hscoped : (PlanType.param owner place).inScope s = true) :
    paramFor? scope (PlanType.paramName s owner place) [] = some ((PlanType.param owner place).use ids s) := by
  have hplain := PlanType.isPlainName_paramName h.named hscoped
  have hdot : (PlanType.paramName s owner place).toList.contains '.' = false := by
    rw [List.contains_eq_mem, decide_eq_false_iff_not]
    exact notMem_of_isPlainName hplain (by decide)
  rw [Work.paramFor?, hdot, Scope.param?, h.typeParams, h.methodParams]
  cases owner with
  | type =>
    obtain ⟨name, hname, hhidden⟩ := Option.any_eq_true .. |>.mp hscoped
    rw [Bool.not_eq_true', List.contains_eq_mem, decide_eq_false_iff_not] at hhidden
    have hother : s.methodParams.idxOf? name = none := List.idxOf?_eq_none_iff.mpr hhidden
    simp [PlanType.paramName, PlanType.use, hname, hother, idxOf?_of_nodup h.distinct.1 hname]
  | method =>
    have hlt : place < s.methodParams.length := of_decide_eq_true hscoped
    have hname := List.getElem?_eq_getElem hlt
    simp [PlanType.paramName, PlanType.use, hname, idxOf?_of_nodup h.distinct.2 hname]

lemma target?_yields (hknown : PlanDecl.Known decls location ids P found) (hlocation : scope.location = location)
    (hd : decls[place]? = some d) :
    Yields P (target? inAlias scope d.fullName d.arity) (· = some (.declaration (ids place))) := by
  unfold target?
  refine Yields.graph.bind fun g hg => ?_
  obtain ⟨a, ha, rfl⟩ := hg
  have hmatch : a.graph.match? scope.location d.arity (scope.candidates d.fullName) = some (.inl (ids place)) := by
    have hregistered := hknown.registered ha hd
    rw [Scope.candidates, List.cons_append, Graph.match?, Graph.lookup, Option.bind_some, hlocation, hregistered]
  rw [hmatch]
  exact .pure rfl

lemma toRef_nameTree {path : String} {trees : List TypeTree} {refs : List TypeRef}
    (h : TypeTree.toRefs path trees = .ok refs) :
    (PlanType.nameTree name trees).toRef path = .ok (.named name refs none) := by
  cases trees with
  | nil =>
    obtain rfl : [] = refs := Except.ok.inj h
    rfl
  | cons first rest =>
    rw [PlanType.nameTree, TypeTree.toRef, h]
    · rfl
    · exact fun heq => by cases heq

mutual

/-- A type without its brackets is resolved to the use that is planned, whatever array it is
made into. -/
lemma stem_yields (path : String) (hknown : PlanDecl.Known decls location ids P found) (hscope : s.Written decls location scope) :
    ∀ type : PlanType, type.inScope s = true → ∃ ref : TypeRef,
      (type.stemTree decls s).toRef path = .ok (ref.withArray none) ∧
      ∀ array, Yields P (resolveWith found inAlias scope (ref.withArray array))
        (· = (type.use ids s).withArray array)
  | .builtin b, _ => by
    refine ⟨.builtin b none, rfl, fun array => ?_⟩
    rw [TypeRef.withArray, resolveWith, PlanType.use]
    exact .pure rfl
  | .nullable b, _ => by
    refine ⟨.builtin b none, by rw [PlanType.stemTree, TypeTree.toRef]; rfl, fun array => ?_⟩
    rw [TypeRef.withArray, resolveWith, PlanType.use]
    exact .pure rfl
  | .param owner place, hscoped => by
    refine ⟨.named (PlanType.paramName s owner place) [] none, rfl, fun array => ?_⟩
    rw [TypeRef.withArray, resolveWith, hscope.paramFor? ids hscoped]
    exact .pure rfl
  | .declared place args, hscoped => by
    obtain ⟨d, hmem, hd, harity, -⟩ := PlanType.exists_declared hscope.named hscoped
    obtain ⟨hplace, -⟩ := List.getElem?_eq_some_iff.mp hd
    obtain ⟨hne, hparts, -⟩ := hscope.named.decls d hmem
    obtain ⟨refs, hrefs, hlength, huses⟩ :=
      each_yields path hknown hscope args (PlanType.inScope_declared hscoped).2
    have hdotted : paramFor? scope d.fullName refs = none := by
      have hdot : d.fullName.toList.contains '.' = true := by
        rw [PlanDecl.fullName_eq hne hparts]
        simp
      rw [Work.paramFor?, hdot, Bool.not_true, Bool.and_false]
      rfl
    refine ⟨.named d.fullName refs none, ?_, fun array => ?_⟩
    · simp only [PlanType.stemTree, hd]
      rw [TypeTree.toRef, toRef_nameTree hrefs]
      rfl
    · rw [TypeRef.withArray, resolveWith, hdotted]
      refine huses.bind_eq ?_
      rw [hlength, ← harity]
      refine (target?_yields hknown hscope.location hd).bind_eq ?_
      refine (hknown.follows _ fun target htarget => ?_).bind fun _ _ => .pure ?_
      · exact ⟨place, hplace, (Option.some.inj htarget).symm⟩
      · rw [PlanType.use]
        rfl
  | .array element rank, hscoped => by
    rw [PlanType.inScope, Bool.and_eq_true] at hscoped
    obtain ⟨ref, hread, hyields⟩ := stem_yields path hknown hscope element hscoped.2
    refine ⟨ref, by rw [PlanType.stemTree]; exact hread, fun array => ?_⟩
    rw [PlanType.use, Use.wrapRank, Use.withArray_withArray]
    exact hyields array

lemma each_yields (path : String) (hknown : PlanDecl.Known decls location ids P found) (hscope : s.Written decls location scope) :
    ∀ types : List PlanType, PlanType.inScopeEach s types = true → ∃ refs : List TypeRef,
      TypeTree.toRefs path (PlanType.treeEach decls s types) = .ok refs ∧ refs.length = types.length ∧
      Yields P (resolveEachWith found inAlias scope refs) (· = PlanType.useEach ids s types)
  | [], _ => ⟨[], rfl, rfl, .pure rfl⟩
  | type :: types, hscoped => by
    rw [PlanType.inScopeEach, Bool.and_eq_true] at hscoped
    obtain ⟨ref, hread, hyields⟩ := stem_yields path hknown hscope type hscoped.1
    obtain ⟨refs, hreads, hlength, huses⟩ := each_yields path hknown hscope types hscoped.2
    refine ⟨ref.withArray (ArrayShape.ofRanks type.ranks) :: refs, ?_, by rw [List.length_cons, hlength, List.length_cons], ?_⟩
    · rw [PlanType.treeEach, TypeTree.toRefs, TypeTree.toRef_brackets hread, hreads]
      rfl
    · rw [resolveEachWith, PlanType.useEach]
      refine (hyields _).bind fun use huse => huses.bind fun uses heq => .pure ?_
      rw [huse, heq, ← PlanType.array_use ids s type, Use.withArray_array]

end

lemma tree_yields (path : String) (hknown : PlanDecl.Known decls location ids P found)
    (hscope : s.Written decls location scope) (hscoped : type.inScope s = true) :
    ∃ ref : TypeRef, (type.tree decls s).toRef path = .ok ref ∧
      Yields P (resolveWith found inAlias scope ref) (· = type.use ids s) := by
  obtain ⟨ref, hread, hyields⟩ := stem_yields path hknown hscope type hscoped
  refine ⟨_, TypeTree.toRef_brackets hread type.ranks, ?_⟩
  refine (hyields (ArrayShape.ofRanks type.ranks)).imp fun use huse => ?_
  rw [huse, ← PlanType.array_use ids s type, Use.withArray_array]

lemma writtenType_yields (hknown : PlanDecl.Known decls location ids P found)
    (hscope : s.Written decls location scope) (document : Document) (hscoped : type.inScope s = true) :
    Yields P (writtenType found document scope (type.tree decls s)) (· = type.use ids s) := by
  obtain ⟨ref, hread, hyields⟩ := tree_yields document.path hknown hscope hscoped
  unfold writtenType
  refine (Yields.check hread).bind_eq ?_
  exact hyields

/-! Constraints. -/

/-- A constraint comes to the parameter it names. -/
lemma constrain_append {uses : List Use} (use : Use)
    (h : ∀ other ∈ before, other.name ≠ name) :
    GenericParam.constrain name use (before ++ ⟨name, uses⟩ :: after) =
      before ++ ⟨name, uses ++ [use]⟩ :: after := by
  induction before with
  | nil => exact if_pos rfl
  | cons first rest ih =>
    obtain ⟨hfirst, hrest⟩ := List.forall_mem_cons.mp h
    rw [List.cons_append, GenericParam.constrain, if_neg hfirst, ih hrest]
    rfl

lemma foldl_constrain (uses more : List Use) (h : ∀ other ∈ before, other.name ≠ name) :
    (more.map fun use => (name, use)).foldl (fun params (name, use) => GenericParam.constrain name use params)
        (before ++ ⟨name, uses⟩ :: after) = before ++ ⟨name, uses ++ more⟩ :: after := by
  induction more generalizing uses with
  | nil =>
    rw [List.append_nil]
    rfl
  | cons use more ih =>
    rw [List.map_cons, List.foldl_cons]
    change List.foldl _ (GenericParam.constrain name use _) _ = _
    rw [constrain_append use h, ih, List.append_assoc]
    rfl

def PlanParam.pairs (ids : Nat → DeclId) (s : PlanScope) (param : PlanParam) : List (String × Use) :=
  (param.constraints.map (PlanType.use ids s)).map fun use => (param.name, use)

/-- Only parameters with constraints are written down. -/
lemma PlanParam.flatMap_pairs (ids : Nat → DeclId) (s : PlanScope) (generics : List PlanParam) :
    (PlanParam.constrained generics).flatMap (PlanParam.pairs ids s) = generics.flatMap (PlanParam.pairs ids s) := by
  induction generics with
  | nil => rfl
  | cons param generics ih =>
    rw [List.flatMap_cons, ← ih]
    cases hconstraints : param.constraints with
    | nil => simp [PlanParam.constrained, PlanParam.pairs, hconstraints]
    | cons type types => simp [PlanParam.constrained, hconstraints]

lemma foldl_constrained (hnodup : (generics.map PlanParam.name).Nodup)
    (hbefore : ∀ other ∈ before, ∀ param ∈ generics, other.name ≠ param.name) :
    (generics.flatMap (PlanParam.pairs ids s)).foldl (fun params (name, use) => GenericParam.constrain name use params)
        (before ++ generics.map fun param => ⟨param.name, []⟩) =
      before ++ generics.map (PlanParam.generic ids s) := by
  induction generics generalizing before with
  | nil => rfl
  | cons param generics ih =>
    obtain ⟨hfirst, hrest⟩ := List.nodup_cons.mp hnodup
    have hname : ∀ other ∈ before, other.name ≠ param.name := fun other hother =>
      hbefore other hother param List.mem_cons_self
    have hothers : ∀ other ∈ before ++ [param.generic ids s], ∀ later ∈ generics, other.name ≠ later.name := by
      intro other hother later hlater
      rcases List.mem_append.mp hother with hother | hother
      · exact hbefore other hother later (List.mem_cons_of_mem param hlater)
      · obtain rfl := List.mem_singleton.mp hother
        exact fun heq => hfirst (List.mem_map.mpr ⟨later, hlater, heq.symm⟩)
    have hall := ih hrest hothers
    rw [List.append_assoc, List.append_assoc] at hall
    rw [List.flatMap_cons, List.foldl_append, List.map_cons, PlanParam.pairs, foldl_constrain [] _ hname]
    exact hall

/-- The constraints that were read come to the parameters they are planned for. -/
lemma constrained_eq (hnodup : (generics.map PlanParam.name).Nodup) :
    constrained (generics.map PlanParam.name) (generics.flatMap (PlanParam.pairs ids s)) =
      generics.map (PlanParam.generic ids s) := by
  have hbefore : ∀ other ∈ ([] : List GenericParam), ∀ param ∈ generics, other.name ≠ param.name := nofun
  rw [constrained, List.map_map]
  exact foldl_constrained hnodup hbefore

lemma writtenConstraints_yields (hknown : plan.Known location ids P found)
    (hscope : s.Written plan.decls location scope) (document : Document) (hfits : PlanParam.fitAll s generics) :
    Yields P (writtenConstraints found document scope
        ((PlanParam.constrained generics).map (PlanParam.clause plan.decls s)))
      (· = generics.flatMap (PlanParam.pairs ids s)) := by
  have hclause : ∀ param ∈ PlanParam.constrained generics,
      Yields P ((param.clause plan.decls s).types.mapM fun tree =>
          return ((param.clause plan.decls s).param, ← writtenType found document scope tree))
        (· = param.pairs ids s) := by
    intro param hparam
    rw [PlanParam.pairs, List.map_map]
    refine Yields.mapM_eq (List.forall₂_map_left_iff.mpr (List.forall₂_same.mpr fun type htype => ?_))
    have hbase := (hfits.2.2 param (List.mem_of_mem_filter hparam)).2 type htype
    have htype := PlanType.inScope_of_fits (PlanType.fits_of_fitsBase hbase)
    exact (writtenType_yields hknown hscope document htype).bind fun use huse => .pure (by rw [huse]; rfl)
  unfold writtenConstraints
  refine (Yields.mapM_eq (List.forall₂_map_left_iff.mpr (List.forall₂_same.mpr hclause))).bind fun uses huses => ?_
  refine .pure ?_
  rw [huses, ← PlanParam.flatMap_pairs, List.flatMap_def]

/-! Members. -/

lemma writtenAttributes_yields (document : Document) (scope : Scope) :
    Yields P (writtenAttributes found document scope []) (· = []) :=
  .pure rfl

lemma writtenProperty_yields (hknown : plan.Known location ids P found)
    (hscope : s.Written plan.decls location scope) (document : Document) {getter setter : Bool} {tree : PropertyTree}
    (hfits : type.fits s = true)
    (hread : (PlanMember.property name type getter setter).ReadAs plan.decls s (.property tree)) :
    Yields P (writtenProperty found document scope tree) fun property =>
      (Member.property property).unplaced = (PlanMember.property name type getter setter).member ids s := by
  obtain ⟨hattributes, htype, rfl, rfl, rfl⟩ := hread
  unfold writtenProperty
  rw [hattributes, htype]
  refine (writtenType_yields hknown hscope document (PlanType.inScope_of_fits hfits)).bind_eq ?_
  refine (writtenAttributes_yields document scope).bind_eq ?_
  exact .pure rfl

lemma typedParams_eq (document : Document) {trees : List ParameterTree}
    (h : List.Forall₂ (ParamRead plan.decls s) params trees) :
    typedParams document trees = .ok (params.map fun param => (param.1, param.2.tree plan.decls s)) := by
  refine mapM_ok (h.flip.imp fun tree param hparam => ?_)
  obtain ⟨hname, htype⟩ := hparam
  rw [htype, hname]

lemma writtenParams_yields (hknown : plan.Known location ids P found) (hscope : s.Written plan.decls location scope)
    (document : Document) (hfits : ∀ param ∈ params, param.2.fits s = true) :
    Yields P ((params.map fun param => (param.1, param.2.tree plan.decls s)).mapM fun (name, type) =>
        return ({ name, type := ← writtenType found document scope type } : Parameter))
      (· = params.map fun param => ⟨param.1, param.2.use ids s⟩) := by
  refine Yields.mapM_eq (List.forall₂_map_left_iff.mpr (List.forall₂_same.mpr fun param hparam => ?_))
  have hscoped := PlanType.inScope_of_fits (hfits param hparam)
  exact (writtenType_yields hknown hscope document hscoped).bind fun use huse => .pure (by rw [huse])

lemma PlanScope.Written.inMethod (h : s.Written plan.decls location scope)
    (hfits : PlanParam.fitAll (s.inMethod generics) generics) :
    (s.inMethod generics).Written plan.decls location { scope with methodParams := generics.map PlanParam.name } where
  typeParams := h.typeParams
  methodParams := rfl
  named := h.named.inMethod fun param hparam => (hfits.2.2 param hparam).1
  location := h.location
  distinct := ⟨h.distinct.1, hfits.2.1⟩

lemma writtenMethod_yields (hknown : plan.Known location ids P found) (hscope : s.Written plan.decls location scope)
    (document : Document) {returns : PlanType} {tree : MethodTree}
    (hfits : (PlanMember.method name generics returns params).Fits s)
    (hread : (PlanMember.method name generics returns params).ReadAs plan.decls s (.method tree)) :
    Yields P (writtenMethod found document scope tree) fun method =>
      (Member.method method).unplaced = (PlanMember.method name generics returns params).member ids s := by
  obtain ⟨-, hgenerics, hreturns, -, hparams⟩ := hfits
  obtain ⟨hattributes, htype, rfl, hnames, htrees, hclauses⟩ := hread
  have hinside := hscope.inMethod hgenerics
  unfold writtenMethod
  rw [hattributes, htype, hnames, hclauses]
  refine (writtenType_yields hknown hinside document (PlanType.inScope_of_fitsReturn hreturns)).bind_eq ?_
  refine (Yields.check (typedParams_eq document htrees)).bind_eq ?_
  refine (writtenParams_yields hknown hinside document fun param hparam => (hparams param hparam).2).bind_eq ?_
  refine (writtenConstraints_yields hknown hinside document hgenerics).bind_eq ?_
  refine (writtenAttributes_yields document _).bind_eq ?_
  refine .pure ?_
  rw [constrained_eq hgenerics.2.1]
  rfl

lemma writtenMember_yields (hknown : plan.Known location ids P found) (hscope : s.Written plan.decls location scope)
    (document : Document) {member : PlanMember} {tree : MemberTree} (hfits : member.Fits s)
    (hread : member.ReadAs plan.decls s tree) :
    Yields P (writtenMember found document scope tree) fun found => found.unplaced = member.member ids s := by
  cases member with
  | property name type getter setter =>
    cases tree with
    | method tree => exact hread.elim
    | property tree =>
      exact (writtenProperty_yields hknown hscope document hfits.2.1 hread).bind fun _ h => .pure h
  | method name generics returns params =>
    cases tree with
    | property tree => exact hread.elim
    | method tree => exact (writtenMethod_yields hknown hscope document hfits hread).bind fun _ h => .pure h

/-- A declaration that was read from source gets the shape that is planned for it. -/
lemma PlanDecl.ReadAs.writtenShape_yields (hknown : plan.Known location ids P found) (hd : d ∈ plan.decls)
    {tree : DeclTree} (h : d.ReadAs plan.decls tree) (document : Document) (hlocation : scope.location = location)
    (hmethods : scope.methodParams = []) :
    Yields P (writtenShape found document scope tree.kind tree) fun shape => shape.unplaced = plan.shape ids d := by
  have hfits := plan.fits d hd
  have hscope : (d.scope plan.arities).Written plan.decls location { scope with typeParams := d.typeParams } :=
    { typeParams := rfl
      methodParams := hmethods
      named := plan.named hd
      location := hlocation
      distinct := ⟨hfits.generics.2.1, List.nodup_nil⟩ }
  have hbases : Yields P ((d.bases.map (PlanType.tree plan.decls (d.scope plan.arities))).mapM
        (writtenType found document { scope with typeParams := d.typeParams }))
      (· = d.bases.map (PlanType.use ids (d.scope plan.arities))) := by
    refine Yields.mapM_eq (List.forall₂_map_left_iff.mpr (List.forall₂_same.mpr fun type htype => ?_))
    have hbase := PlanType.fits_of_fitsBase (hfits.bases type htype)
    exact writtenType_yields hknown hscope document (PlanType.inScope_of_fits hbase)
  have hmembers := Yields.mapM (P := P) (f := writtenMember found document { scope with typeParams := d.typeParams })
    (forall₂_of_mem h.members.flip fun tree member hmember hread =>
      writtenMember_yields hknown hscope document (hfits.members member hmember) hread)
  unfold writtenShape
  rw [if_neg (h.kind ▸ hfits.kind), h.typeParams, h.constraints, h.bases, h.attributes]
  refine (writtenConstraints_yields hknown hscope document hfits.generics).bind_eq ?_
  refine hbases.bind_eq ?_
  refine hmembers.bind fun members hmembers => ?_
  refine (writtenAttributes_yields document _).bind fun attributes heq => .pure ?_
  subst heq
  have hgenerics : constrained d.typeParams (d.generics.flatMap (PlanParam.pairs ids (d.scope plan.arities))) =
      d.generics.map (PlanParam.generic ids (d.scope plan.arities)) := constrained_eq hfits.generics.2.1
  rw [Shape.unplaced, hgenerics]
  dsimp only
  rw [hmembers]
  rfl

end Resolution

end TypeAtlas
