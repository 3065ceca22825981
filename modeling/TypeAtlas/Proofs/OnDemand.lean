import TypeAtlas.Metadata.Builder
import TypeAtlas.Proofs.Meaning

/-!
Names that earlier calls can decide. What is in the graph goes before what a module could
still supply, so resolving one reference can change which declaration another one stands
for. Main statement: a reference in which no name is in dispute comes to the same whatever
was resolved before, and a name in dispute does not.
-/

namespace TypeAtlas

variable {arity : Nat} {name : String}

namespace Graph

variable {g : Graph} {d : Declaration}

/-- Registering what contends for a name makes it the first candidate. -/
lemma match?_add_of_contends (h : g.Indexed) (hfree : g.findQualified d.key = none) {location : String}
    {candidates : List Candidate} (hcontends : g.Contends location arity d candidates) :
    (g.add d).2.match? location arity candidates = some (.inl g.size) := by
  have hnew := get?_add_of_free hfree
  have hindexed := h.add d
  have hlookup_new : ∀ {fullName id}, g.lookup fullName arity (some location) = none →
      (g.add d).2.lookup fullName arity (some location) = some id →
      id = g.size ∧ d.fullName = fullName ∧ d.arity = arity := by
    intro fullName id hnone hfound
    obtain ⟨e, he, rfl, rfl⟩ := hindexed.get?_lookup hfound
    rcases get?_add_eq_some he with hold | ⟨rfl, rfl, -, -⟩
    · exact absurd hnone (h.lookup_ne_none hold (some location))
    · exact ⟨rfl, rfl, rfl⟩
  fun_induction g.match? location arity candidates with
  | case1 => exact hcontends.elim
  | case2 fullName rest id hlookup =>
    simp only [Contends, hlookup] at hcontends
    have hqualified : (g.add d).2.findQualified ⟨fullName, arity, location⟩ = some g.size :=
      (hindexed.byKey _ _).mpr ⟨d, hnew, hcontends⟩
    simp [match?, lookup, hqualified]
  | case3 fullName rest hlookup ih =>
    simp only [Contends, hlookup] at hcontends
    rw [match?]
    cases hfound : (g.add d).2.lookup fullName arity (some location) with
    | some id => rw [(hlookup_new hlookup hfound).1]
    | none =>
      rcases hcontends with ⟨rfl, rfl⟩ | hcontends
      · exact absurd hfound (hindexed.lookup_ne_none hnew (some location))
      · exact ih hcontends
  | case4 target rest harity => simp [Contends, harity] at hcontends
  | case5 target rest harity ih =>
    simp only [Contends, if_neg harity] at hcontends
    rw [match?, if_neg harity]
    exact ih hcontends

end Graph

namespace Work

variable {a : Atlas} {d : Declaration} {scope : Scope}

lemma exec_resolveEachWith_builtin (found : Use → Work Unit) (inAlias : TypeRef → Work Use)
    (scope : Scope) (type : Builtin) (n : Nat) (b : Atlas) :
    (resolveEachWith found inAlias scope (List.replicate n (.builtin type none))).exec b =
      (.ok (List.replicate n (.builtin type none)), b) := by
  induction n with
  | zero => rfl
  | succ n ih =>
    simp only [List.replicate_succ, resolveEachWith, resolveWith, exec_bind, exec_pure, ih]

/-- The atlas that has taken up what it offers is enriched by just that. -/
lemma brought_add {e : Declaration}
    (hbrought : a.Brought { a with graph := (a.graph.add d).2 } e) : e = d := by
  obtain ⟨id, hid, he⟩ := hbrought
  rcases Graph.get?_add_eq_some he with hold | ⟨-, rfl, -, -⟩
  · exact absurd (Graph.lt_size_of_get? hold) (Nat.not_lt.mpr hid)
  · rfl

lemma exec_resolve_builtin_args (b : Atlas)
    (hparam : paramFor? scope name (List.replicate arity (.builtin .int none)) = none) :
    (resolve scope (.named name (List.replicate arity (.builtin .int none)) none)).exec b =
      (target? (resolvePlain follow scope.forAlias) scope name arity >>= conclude follow
        (.unresolved (TypeRef.named name (List.replicate arity (.builtin .int none)) none).text
          scope.requester scope.location)
        (List.replicate arity (.builtin .int none)) none).exec b := by
  rw [resolve, resolveFinding, resolveWith, hparam]
  dsimp only
  rw [exec_bind, exec_resolveEachWith_builtin, List.length_replicate]
  rfl

lemma paramFor?_of_bare (name : String) (args : List TypeRef) :
    paramFor? { requester := "", location := "" } name args = none := by
  unfold paramFor?
  split <;> rfl

/-- One call takes up what an atlas offers. -/
lemma exec_resolve_of_offers (ha : a.graph.Indexed) (hlazy : a.settings.loadPolicy = .lazy)
    (hoffers : a.Offers d) :
    ∃ ref r, (resolve { requester := "", location := "" } ref).exec a =
      (r, { a with graph := (a.graph.add d).2 }) := by
  obtain ⟨fullName, arity, library, row, key, hlookup, hbuiltin, hfirst, hkey, hfree, hd⟩ :=
    hoffers.defined
  have hcandidates : ({ requester := "", location := "" } : Scope).candidates fullName =
      [.name fullName] := by
    simp [Scope.candidates, Scope.enclosing]
  have hmatch : a.graph.match? "" arity [.name fullName] = none := by
    cases hfound : a.graph.lookup fullName arity (some "") with
    | none => simp [Graph.match?, hfound]
    | some id =>
      obtain ⟨e, he, rfl, rfl⟩ := ha.get?_lookup hfound
      exact absurd hlookup (ha.lookup_ne_none he none)
  have hdefine : (define library row).exec a =
      (.ok (a.graph.add d).1, { a with graph := (a.graph.add d).2 }) := by
    simp only [exec_define, hkey, hfree, hd]
  have htarget : ∀ inAlias, (target? inAlias { requester := "", location := "" } fullName arity).exec a =
      (.ok (some (.declaration (a.graph.add d).1)), { a with graph := (a.graph.add d).2 }) := by
    intro inAlias
    rw [exec_target?, hcandidates]
    simp only [hmatch, Candidate.names, List.filterMap_cons, List.filterMap_nil, hbuiltin,
      List.findSome?_cons, hfirst, hdefine]
  have hfollow := fun use => exec_follow_of_lazy (c := { a with graph := (a.graph.add d).2 }) hlazy use
  refine ⟨.named fullName (List.replicate arity (.builtin .int none)) none,
    .ok (.declared (a.graph.add d).1 (List.replicate arity (.builtin .int none)) none), ?_⟩
  rw [exec_resolve_builtin_args a (paramFor?_of_bare _ _)]
  simp only [exec_bind, htarget, conclude, hfollow, exec_pure, Target.toUse]

/-- What disputes a name is taken for it once it is registered. -/
lemma exec_target?_of_disputes (ha : a.graph.Indexed) (hoffers : a.Offers d)
    (hdisputes : a.Disputes scope name arity d) (inAlias : TypeRef → Work Use) :
    (target? inAlias scope name arity).exec { a with graph := (a.graph.add d).2 } =
      (.ok (some (.declaration a.graph.size)), { a with graph := (a.graph.add d).2 }) := by
  have hnew := Graph.get?_add_of_free hoffers.free
  have henriched := enriched_add (.refl ha) hoffers
  rw [exec_target?]
  obtain ⟨-, hcontends | ⟨hmatch, hbuiltin, library, row, hfirst, hkey⟩⟩ := hdisputes
  · dsimp only
    rw [Graph.match?_add_of_contends ha hoffers.free hcontends]
  · rcases henriched.match?_of_none ha hmatch with hnone | ⟨id, e, -, -, hbrought, hcontends⟩
    · have hfound : (a.graph.add d).2.findQualified d.key = some a.graph.size :=
        (henriched.indexed.byKey _ _).mpr ⟨d, hnew, rfl⟩
      simp only [hnone, hbuiltin, hfirst, exec_define, hkey, hfound]
    · rw [brought_add hbrought] at hcontends
      dsimp only
      rw [Graph.match?_add_of_contends ha hoffers.free hcontends]

end Work

namespace Atlas

variable {a b : Atlas} {scope : Scope} {ref : TypeRef}

/-- What resolving a reference comes to, with its declarations named by their keys. -/
def outcome (a : Atlas) (scope : Scope) (ref : TypeRef) : Except Fault Outline :=
  ((Work.resolve scope ref).exec a).1.map
    (Use.outline ((Work.resolve scope ref).exec a).2.graph)

section

variable (ha : a.graph.Indexed) (hlazy : a.settings.loadPolicy = .lazy)

include ha hlazy

/-- A reference without dispute comes to what it means at the start. -/
lemma outcome_of_undisputed (hundisputed : a.Undisputed scope ref) (hb : a.Enriched b) :
    b.outcome scope ref = a.meaning scope ref := by
  obtain ⟨c, -, -, ⟨use, hrun, -, hmeaning⟩ | ⟨fault, hrun, hmeaning⟩⟩ :=
    Work.resolve_means ha hlazy hundisputed b hb
  · rw [outcome, hrun, hmeaning]
    rfl
  · rw [outcome, hrun, hmeaning]
    rfl

/-- A reference without dispute resolves to the same use when it is resolved again. -/
lemma exec_resolve_again (hundisputed : a.Undisputed scope ref) :
    ((Work.resolve scope ref).exec ((Work.resolve scope ref).exec a).2).1 =
      ((Work.resolve scope ref).exec a).1 := by
  obtain ⟨c, hc, -, hfirst⟩ := Work.resolve_means ha hlazy hundisputed a (.refl ha)
  obtain ⟨c', hc', hwithin, hagain⟩ := Work.resolve_means ha hlazy hundisputed c hc
  rcases hfirst with ⟨use, hrun, huse, hmeaning⟩ | ⟨fault, hrun, hmeaning⟩
  · rw [hrun]
    rcases hagain with ⟨use', hrun', huse', hmeaning'⟩ | ⟨fault, -, hmeaning'⟩
    · rw [hrun']
      have houtline := Except.ok.inj (hmeaning'.symm.trans hmeaning)
      rw [← Use.outline_within hwithin use huse] at houtline
      have hregistered := fun target hmem => hwithin.lt_size (huse target hmem)
      exact congrArg Except.ok (Use.eq_of_outline_eq hc'.indexed use' use huse' hregistered houtline)
    · cases hmeaning'.symm.trans hmeaning
  · rw [hrun]
    rcases hagain with ⟨use', -, -, hmeaning'⟩ | ⟨fault', hrun', hmeaning'⟩
    · cases hmeaning'.symm.trans hmeaning
    · rw [hrun']
      exact congrArg Except.error (Except.error.inj (hmeaning'.symm.trans hmeaning))

/-- What disputes a name changes what it comes to, once one call has taken it up. -/
lemma outcome_of_disputes {d : Declaration} (hoffers : a.Offers d) (hdisputes : a.Disputes scope name arity d)
    (halias : ∀ target, a.answer scope name arity ≠ .aliased target)
    (hparam : Work.paramFor? scope name (List.replicate arity (.builtin .int none)) = none) :
    { a with graph := (a.graph.add d).2 : Atlas }.outcome scope
        (.named name (List.replicate arity (.builtin .int none)) none) ≠
      a.outcome scope (.named name (List.replicate arity (.builtin .int none)) none) := by
  -- Afterwards the name stands for what disputed it.
  have hlater : ({ a with graph := (a.graph.add d).2 } : Atlas).outcome scope
      (.named name (List.replicate arity (.builtin .int none)) none) =
      .ok (.declared (some d.key) (Use.outlineEach (a.graph.add d).2
        (List.replicate arity (.builtin .int none))) none) := by
    have hfollow := fun use =>
      Work.exec_follow_of_lazy (c := { a with graph := (a.graph.add d).2 }) hlazy use
    have hnew := Graph.get?_add_of_free hoffers.free
    rw [outcome, Work.exec_resolve_builtin_args _ hparam]
    simp only [Work.exec_bind, Work.exec_target?_of_disputes ha hoffers hdisputes, Work.conclude,
      hfollow, Work.exec_pure, Target.toUse, Except.map, Use.outline, hnew, Option.map_some]
  -- At the start it stands for its answer, which is something else.
  have hanswered : Work.Answered a a (Work.resolvePlain Work.follow scope.forAlias)
      (Work.target? (Work.resolvePlain Work.follow scope.forAlias) scope name arity)
      (a.answer scope name arity) := by
    refine Work.target?_answered ha (.refl ha) _ ?_
    rintro e ⟨id, hid, he⟩
    exact absurd (Graph.lt_size_of_get? he) (Nat.not_lt.mpr hid)
  have hbuiltins : ∀ n, Use.targetsEach (List.replicate n (.builtin .int none)) = [] := by
    intro n
    induction n with
    | zero => rfl
    | succ n ih => simp [List.replicate_succ, Use.targetsEach, Use.targets, ih]
  have hno_alias : ∀ target, a.answer scope name arity = .aliased target →
      Work.Means a (Work.resolvePlain Work.follow scope.forAlias target) (a.meaning scope target) :=
    fun target heq => absurd heq (halias target)
  have hfirst := Work.answered_means (.refl ha) (Work.exec_follow_of_enriched hlazy) hanswered hno_alias
    (.unresolved (TypeRef.named name (List.replicate arity (.builtin .int none)) none).text
      scope.requester scope.location) none (by rw [hbuiltins arity]; simp)
  rw [hlater]
  intro hsame
  obtain ⟨c, -, -, ⟨use, hrun, -, hmeaning⟩ | ⟨fault, hrun, -⟩⟩ := hfirst
  · rw [outcome, Work.exec_resolve_builtin_args _ hparam, hrun] at hsame
    have houtline := Except.ok.inj hsame
    rw [← houtline] at hmeaning
    cases hcase : a.answer scope name arity with
    | declared key =>
      rw [hcase] at hmeaning
      simp only [Answer.meaning, Except.ok.injEq, Outline.declared.injEq, Option.some.injEq] at hmeaning
      exact hdisputes.1 (hcase.trans (by rw [hmeaning.1]))
    | builtin type =>
      rw [hcase] at hmeaning
      cases hmeaning
    | aliased target => exact halias target hcase
    | unresolved =>
      rw [hcase] at hmeaning
      cases hmeaning
    | malformed cause =>
      rw [hcase] at hmeaning
      cases hmeaning
  · rw [outcome, Work.exec_resolve_builtin_args _ hparam, hrun] at hsame
    cases hsame

lemma enriched_afterAll_resolve (history : List (Scope × TypeRef)) :
    a.Enriched (a.afterAll (history.map fun (scope, ref) => .resolve scope ref)) := by
  refine afterAll_induction (fun call hcall => ?_) (.refl ha)
  obtain ⟨⟨scope, ref⟩, -, rfl⟩ := List.mem_map.mp hcall
  exact (Work.resolve_keeps_enriched ha hlazy scope ref).bind fun _ => .pure _

end

/-- After any calls on an atlas that loads nothing on its own, a reference in which no name
is in dispute comes to the same whatever was resolved before it, and to the same use when it
is resolved again at once. A name in dispute, if it is no alias, comes to something else
after some other reference was resolved. -/
theorem outcome_after_resolve (settings : Settings) (hlazy : settings.loadPolicy = .lazy)
    (calls : List Call) (scope : Scope) :
    let a := ({ settings } : Atlas).afterAll calls
    (∀ ref, a.Undisputed scope ref →
      (∀ history : List (Scope × TypeRef),
        (a.afterAll (history.map fun (scope, ref) => .resolve scope ref)).outcome scope ref =
          a.outcome scope ref) ∧
      ((Work.resolve scope ref).exec ((Work.resolve scope ref).exec a).2).1 =
        ((Work.resolve scope ref).exec a).1) ∧
    ∀ name arity d, a.Offers d → a.Disputes scope name arity d →
      (∀ target, a.answer scope name arity ≠ .aliased target) →
      Work.paramFor? scope name (List.replicate arity (.builtin .int none)) = none →
      ∃ scope' ref', (a.after (.resolve scope' ref')).outcome scope
          (.named name (List.replicate arity (.builtin .int none)) none) ≠
        a.outcome scope (.named name (List.replicate arity (.builtin .int none)) none) := by
  intro a
  have ha : a.graph.Indexed := indexed_afterAll settings calls
  have hlazy : a.settings.loadPolicy = .lazy := by
    rw [settings_afterAll settings calls]
    exact hlazy
  refine ⟨fun ref hundisputed => ⟨fun history => ?_, exec_resolve_again ha hlazy hundisputed⟩, ?_⟩
  · rw [outcome_of_undisputed ha hlazy hundisputed (enriched_afterAll_resolve ha hlazy history),
      outcome_of_undisputed ha hlazy hundisputed (.refl ha)]
  · intro name arity d hoffers hdisputes halias hparam
    obtain ⟨ref', r, hrun⟩ := Work.exec_resolve_of_offers ha hlazy hoffers
    refine ⟨{ requester := "", location := "" }, ref', ?_⟩
    have hafter : a.after (.resolve { requester := "", location := "" } ref') =
        { a with graph := (a.graph.add d).2 } := by
      unfold after Call.work
      rw [Work.exec_bind, hrun]
      cases r <;> rfl
    rw [hafter]
    exact outcome_of_disputes ha hlazy hoffers hdisputes halias hparam

/-- A module with a type of one simple name in each of two namespaces. -/
def widgets : Library where
  module := ((do
    let _ ← Metadata.Builder.defineType 1 "A" "Widget" none
    let _ ← Metadata.Builder.defineType 1 "B" "Widget" none : Metadata.Build Unit).run.run
      (Metadata.Builder.ofAssembly "Widgets")).2.module
  location := "widgets.dll"

/-- A place that sees both namespaces. -/
def shop : Scope := { requester := "Shop", location := "shop.cs", usings := ["A", "B"] }

/-- An atlas that can draw on the module. -/
def shopAtlas : Atlas := ({ settings := {} } : Atlas).afterAll [.addLibrary widgets]

/-- The simple name means the type of the first namespace, unless the other type was asked
for before. -/
theorem widget_depends_on_history :
    (shopAtlas.afterAll [.resolve shop (.named "B.Widget" [] none)]).outcome shop
        (.named "Widget" [] none) ≠
      shopAtlas.outcome shop (.named "Widget" [] none) := by
  have hfirst : shopAtlas.outcome shop (.named "Widget" [] none) =
      .ok (.declared (some ⟨"A.Widget", 0, "widgets.dll"⟩) [] none) := by
    with_unfolding_all rfl
  have hlater : (shopAtlas.afterAll [.resolve shop (.named "B.Widget" [] none)]).outcome shop
      (.named "Widget" [] none) =
      .ok (.declared (some ⟨"B.Widget", 0, "widgets.dll"⟩) [] none) := by
    with_unfolding_all rfl
  rw [hfirst, hlater]
  simp

/-- Only the two types of the module are offered. -/
lemma key_of_offers_shopAtlas {d : Declaration} (h : shopAtlas.Offers d) :
    d.key = ⟨"A.Widget", 0, "widgets.dll"⟩ ∨ d.key = ⟨"B.Widget", 0, "widgets.dll"⟩ := by
  obtain ⟨fullName, arity, library, row, key, -, -, hfirst, -, -, hd⟩ := h.defined
  obtain ⟨found, hmem, hdefined⟩ := List.exists_of_findSome?_eq_some hfirst
  obtain rfl : found = widgets := List.mem_singleton.mp hmem
  obtain ⟨row', hrow, heq⟩ := Option.map_eq_some_iff.mp hdefined
  obtain ⟨rfl, rfl⟩ := Prod.mk.inj heq
  have hrows : widgets.module.typeDefRows = [1, 2] := by
    with_unfolding_all rfl
  have hmem := List.mem_of_find?_eq_some hrow
  rw [hrows] at hmem
  have hkey : ∀ row ∈ [2, 1], (Declaration.ofDefinition none widgets row).toOption.map (·.key) =
      some ⟨"A.Widget", 0, "widgets.dll"⟩ ∨
      (Declaration.ofDefinition none widgets row).toOption.map (·.key) =
        some ⟨"B.Widget", 0, "widgets.dll"⟩ := by
    decide +kernel
  have hfound := hkey row' (by simpa using hmem)
  rw [hd] at hfound
  exact hfound.imp Option.some.inj Option.some.inj

lemma answer_shopAtlas_full :
    shopAtlas.answer shop "A.Widget" 0 = .declared ⟨"A.Widget", 0, "widgets.dll"⟩ := by
  with_unfolding_all rfl

lemma answer_shopAtlas_simple :
    shopAtlas.answer shop "Widget" 0 = .declared ⟨"A.Widget", 0, "widgets.dll"⟩ := by
  with_unfolding_all rfl

lemma lookup_shopAtlas (fullName : String) (arity : Nat) (location : Option String) :
    shopAtlas.graph.lookup fullName arity location = none := by
  cases location <;> rfl

/-- The full name is not in dispute. -/
lemma undisputed_shopAtlas : shopAtlas.Undisputed shop (.named "A.Widget" [] none) := by
  have hparam : Work.paramFor? shop "A.Widget" [] = none := by
    with_unfolding_all rfl
  have hcandidates : shop.candidates "A.Widget" =
      [.name "A.Widget", .name "A.A.Widget", .name "B.A.Widget"] := by
    with_unfolding_all rfl
  have hsupplied : (Candidate.names (shop.candidates "A.Widget")).findSome?
      (Library.first? shopAtlas.libraries 0) = some (widgets, 1) := by
    with_unfolding_all rfl
  have hmarked : widgets.markedKey 1 = .ok ⟨"A.Widget", 0, "widgets.dll"⟩ := by
    with_unfolding_all rfl
  rw [Undisputed, UndisputedWith, hparam]
  refine ⟨trivial, fun d hoffers hdisputes => ?_, fun target halias => ?_⟩
  · obtain ⟨hne, hcontends | ⟨-, -, library, row, hfirst, hkey⟩⟩ := hdisputes
    · rcases key_of_offers_shopAtlas hoffers with hkey | hkey
      · rw [hkey] at hne
        exact hne answer_shopAtlas_full
      · have hname : d.fullName = "B.Widget" := congrArg Key.fullName hkey
        simp [hcandidates, Graph.Contends, lookup_shopAtlas, hname] at hcontends
    · cases hsupplied.symm.trans hfirst
      have hkey := Except.ok.inj (hmarked.symm.trans hkey)
      rw [← hkey] at hne
      exact hne answer_shopAtlas_full
  · rw [List.length_nil, answer_shopAtlas_full] at halias
    cases halias

/-- The type of the second namespace disputes the simple name. -/
lemma disputes_shopAtlas : ∃ d, shopAtlas.Offers d ∧ shopAtlas.Disputes shop "Widget" 0 d := by
  have hkey : (Declaration.ofDefinition none widgets 2).toOption.map (·.key) =
      some ⟨"B.Widget", 0, "widgets.dll"⟩ := by
    decide +kernel
  have hcandidates : shop.candidates "Widget" =
      [.name "Widget", .name "A.Widget", .name "B.Widget"] := by
    with_unfolding_all rfl
  have hsupplied : Library.first? shopAtlas.libraries 0 "B.Widget" = some (widgets, 2) := by
    with_unfolding_all rfl
  have hmarked : widgets.markedKey 2 = .ok ⟨"B.Widget", 0, "widgets.dll"⟩ := by
    with_unfolding_all rfl
  have hbuiltin : Builtin.first? 0 ["B.Widget"] = none := by
    decide
  cases hd : Declaration.ofDefinition none widgets 2 with
  | error cause =>
    rw [hd] at hkey
    cases hkey
  | ok d =>
    rw [hd] at hkey
    have hkey : d.key = ⟨"B.Widget", 0, "widgets.dll"⟩ := Option.some.inj hkey
    have hname : d.fullName = "B.Widget" := congrArg Key.fullName hkey
    have harity : d.arity = 0 := congrArg Key.arity hkey
    refine ⟨d, ⟨rfl, "B.Widget", 0, widgets, 2, _, lookup_shopAtlas .., hbuiltin, hsupplied,
      hmarked, rfl, hd⟩, ?_, .inl ?_⟩
    · rw [answer_shopAtlas_simple, hkey]
      simp
    · simp [hcandidates, Graph.Contends, lookup_shopAtlas, hname, harity]

/-- In the shop the full name means the same after any references, the simple name does
not. -/
theorem outcome_after_resolve_shopAtlas :
    (shopAtlas.Undisputed shop (.named "A.Widget" [] none) ∧
      ∀ history : List (Scope × TypeRef),
        (shopAtlas.afterAll (history.map fun (scope, ref) => .resolve scope ref)).outcome shop
            (.named "A.Widget" [] none) =
          shopAtlas.outcome shop (.named "A.Widget" [] none)) ∧
    (∃ d, shopAtlas.Offers d ∧ shopAtlas.Disputes shop "Widget" 0 d) ∧
      ∃ scope' ref', (shopAtlas.after (.resolve scope' ref')).outcome shop
          (.named "Widget" [] none) ≠
        shopAtlas.outcome shop (.named "Widget" [] none) := by
  have hmain := outcome_after_resolve {} rfl [.addLibrary widgets] shop
  obtain ⟨d, hoffers, hdisputes⟩ := disputes_shopAtlas
  refine ⟨⟨undisputed_shopAtlas, (hmain.1 _ undisputed_shopAtlas).1⟩, ⟨d, hoffers, hdisputes⟩, ?_⟩
  refine hmain.2 "Widget" 0 d hoffers hdisputes (fun target halias => ?_) ?_
  · have hanswer := answer_shopAtlas_simple.symm.trans halias
    cases hanswer
  · with_unfolding_all rfl

end Atlas

end TypeAtlas
