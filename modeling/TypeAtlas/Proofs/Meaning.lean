import TypeAtlas.Proofs.Enrichment
import TypeAtlas.Proofs.References

/-!
What references mean, read off an atlas before anything is resolved in it. Main statement:
in every atlas that calls have enriched, resolving a reference in which no name is in
dispute gives its meaning, and resolving any reference enriches the atlas at most.
-/

namespace TypeAtlas

/-- A use with the declarations in it named by their keys. -/
inductive Outline where
  | declared (key : Option Key) (args : List Outline) (array : Option ArrayShape)
  | builtin (type : Builtin) (array : Option ArrayShape)
  | param (name : String) (position : Nat) (owner : ParamOwner) (array : Option ArrayShape)

namespace Outline

def array : Outline → Option ArrayShape
  | declared _ _ array | builtin _ array | param _ _ _ array => array

def withArray (array : Option ArrayShape) : Outline → Outline
  | declared key args _ => declared key args array
  | builtin type _ => builtin type array
  | param name position owner _ => param name position owner array

end Outline

/-- What an answer to a name makes of a reference with arguments and an array part. -/
def Answer.meaning (inAlias : TypeRef → Except Fault Outline) (fault : Fault)
    (args : List Outline) (array : Option ArrayShape) : Answer → Except Fault Outline
  | .declared key => .ok (.declared (some key) args array)
  | .builtin type => .ok (.builtin type array)
  | .aliased target =>
    (inAlias target).map fun outline => outline.withArray (ArrayShape.join array outline.array)
  | .unresolved => .error fault
  | .malformed cause => .error (.malformed cause)

mutual

def Use.outline (g : Graph) : Use → Outline
  | .declared id args array =>
    .declared ((g.get? id).map Declaration.key) (Use.outlineEach g args) array
  | .builtin type array => .builtin type array
  | .param name position owner array => .param name position owner array

def Use.outlineEach (g : Graph) : List Use → List Outline
  | [] => []
  | use :: uses => use.outline g :: Use.outlineEach g uses

end

namespace Atlas

mutual

/-- No name in a reference is in dispute. Where a name is an alias, `inAlias` speaks of its
target. -/
def UndisputedWith (a : Atlas) (inAlias : TypeRef → Prop) (scope : Scope) : TypeRef → Prop
  | .builtin _ _ => True
  | .named name args _ =>
    match Work.paramFor? scope name args with
    | some _ => True
    | none =>
      a.UndisputedEachWith inAlias scope args ∧
      (∀ d, a.Offers d → ¬ a.Disputes scope name args.length d) ∧
      ∀ target, a.answer scope name args.length = .aliased target → inAlias target

def UndisputedEachWith (a : Atlas) (inAlias : TypeRef → Prop) (scope : Scope) :
    List TypeRef → Prop
  | [] => True
  | ref :: refs => a.UndisputedWith inAlias scope ref ∧ a.UndisputedEachWith inAlias scope refs

end

mutual

/-- What a reference means as the atlas is, when `inAlias` tells it of the targets of
aliases. -/
def meaningWith (a : Atlas) (inAlias : TypeRef → Except Fault Outline) (scope : Scope) :
    TypeRef → Except Fault Outline
  | .builtin type array => .ok (.builtin type array)
  | .named name args array =>
    match Work.paramFor? scope name args with
    | some param => .ok ((param.withArray array).outline a.graph)
    | none =>
      match a.meaningEachWith inAlias scope args with
      | .error fault => .error fault
      | .ok outlines =>
        (a.answer scope name args.length).meaning inAlias
          (.unresolved (TypeRef.named name args array).text scope.requester scope.location)
          outlines array

def meaningEachWith (a : Atlas) (inAlias : TypeRef → Except Fault Outline) (scope : Scope) :
    List TypeRef → Except Fault (List Outline)
  | [] => .ok []
  | ref :: refs =>
    match a.meaningWith inAlias scope ref with
    | .error fault => .error fault
    | .ok outline => (a.meaningEachWith inAlias scope refs).map (outline :: ·)

end

/-- What a reference means as the atlas is. -/
def meaning (a : Atlas) (scope : Scope) : TypeRef → Except Fault Outline :=
  a.meaningWith (a.meaningWith
    (fun target => .error (.unresolved target.text scope.requester scope.location))
    scope.forAlias) scope

/-- No name in a reference is in dispute, nor in the targets of the aliases it uses. -/
def Undisputed (a : Atlas) (scope : Scope) : TypeRef → Prop :=
  a.UndisputedWith (a.UndisputedWith (fun _ => True) scope.forAlias) scope

end Atlas

mutual

/-- The outline of a use stays what it is as long as its declarations are kept. -/
lemma Use.outline_within {g g' : Graph} (h : g.Within g') :
    ∀ use : Use, (∀ target ∈ use.targets, target < g.size) → use.outline g' = use.outline g
  | .declared id args array, hregistered => by
    have hid : id < g.size := hregistered id (by simp [Use.targets])
    have hargs : ∀ target ∈ Use.targetsEach args, target < g.size :=
      fun target hmem => hregistered target (by simp [Use.targets, hmem])
    obtain ⟨d, hd⟩ := Graph.get?_of_lt_size hid
    simp [Use.outline, hd, h hd, Use.outlineEach_within h args hargs]
  | .builtin type array, _ => rfl
  | .param name position owner array, _ => rfl

lemma Use.outlineEach_within {g g' : Graph} (h : g.Within g') :
    ∀ uses : List Use, (∀ target ∈ Use.targetsEach uses, target < g.size) →
      Use.outlineEach g' uses = Use.outlineEach g uses
  | [], _ => rfl
  | use :: uses, hregistered => by
    have huse : ∀ target ∈ use.targets, target < g.size :=
      fun target hmem => hregistered target (by simp [Use.targetsEach, hmem])
    have huses : ∀ target ∈ Use.targetsEach uses, target < g.size :=
      fun target hmem => hregistered target (by simp [Use.targetsEach, hmem])
    simp only [Use.outlineEach, Use.outline_within h use huse, Use.outlineEach_within h uses huses]

end

lemma Graph.Within.lt_size {g g' : Graph} (h : g.Within g') {id : DeclId} (hid : id < g.size) :
    id < g'.size := by
  obtain ⟨d, hd⟩ := Graph.get?_of_lt_size hid
  exact Graph.lt_size_of_get? (h hd)

lemma Use.outline_withArray (g : Graph) (use : Use) (array : Option ArrayShape) :
    (use.withArray array).outline g = (use.outline g).withArray array := by
  cases use <;> rfl

lemma Use.array_outline (g : Graph) (use : Use) : (use.outline g).array = use.array := by
  cases use <;> rfl

namespace Work

variable {a b : Atlas}

/-- Work that gives what a meaning says in every enriched atlas, and enriches it at most. -/
def Means (a : Atlas) (w : Work Use) (meaning : Except Fault Outline) : Prop :=
  ∀ b, a.Enriched b → ∃ c, a.Enriched c ∧ b.graph.Within c.graph ∧
    ((∃ use, w.exec b = (.ok use, c) ∧ (∀ target ∈ use.targets, target < c.graph.size) ∧
        meaning = .ok (use.outline c.graph)) ∨
      ∃ fault, w.exec b = (.error fault, c) ∧ meaning = .error fault)

/-- The same for several uses. -/
def MeansEach (a : Atlas) (w : Work (List Use)) (meaning : Except Fault (List Outline)) : Prop :=
  ∀ b, a.Enriched b → ∃ c, a.Enriched c ∧ b.graph.Within c.graph ∧
    ((∃ uses, w.exec b = (.ok uses, c) ∧
        (∀ target ∈ Use.targetsEach uses, target < c.graph.size) ∧
        meaning = .ok (Use.outlineEach c.graph uses)) ∨
      ∃ fault, w.exec b = (.error fault, c) ∧ meaning = .error fault)

lemma means_throw (a : Atlas) (fault : Fault) : Means a (throw fault) (.error fault) :=
  fun b h => ⟨b, h, fun hd => hd, .inr ⟨fault, rfl, rfl⟩⟩

section Resolve

variable {found : Use → Work Unit} {inAlias : TypeRef → Work Use}
  {aliasMeaning : TypeRef → Except Fault Outline} {aliasFine : TypeRef → Prop}

/-- What resolution does with a target once it is found. -/
def conclude (found : Use → Work Unit) (fault : Fault) (uses : List Use)
    (array : Option ArrayShape) : Option Target → Work Use
  | none => throw fault
  | some target => do
    found (target.toUse uses array)
    return target.toUse uses array

/-- A reference with resolved arguments, from the answer to its name. -/
lemma answered_means (hb : a.Enriched b)
    (hfound : ∀ c use, a.Enriched c → (found use).exec c = (.ok (), c))
    {answer : Answer} {w : Work (Option Target)} (hw : Answered a b inAlias w answer)
    (halias : ∀ target, answer = .aliased target → Means a (inAlias target) (aliasMeaning target))
    (fault : Fault) (array : Option ArrayShape) {uses : List Use}
    (huses : ∀ target ∈ Use.targetsEach uses, target < b.graph.size) :
    ∃ c, a.Enriched c ∧ b.graph.Within c.graph ∧
      ((∃ use, (w >>= conclude found fault uses array).exec b = (.ok use, c) ∧
          (∀ target ∈ use.targets, target < c.graph.size) ∧
          answer.meaning aliasMeaning fault (Use.outlineEach b.graph uses) array =
            .ok (use.outline c.graph)) ∨
        ∃ fault', (w >>= conclude found fault uses array).exec b = (.error fault', c) ∧
          answer.meaning aliasMeaning fault (Use.outlineEach b.graph uses) array = .error fault') := by
  cases answer with
  | declared key =>
    obtain ⟨id, c, d, hrun, hc, hwithin, hd, rfl⟩ := hw
    refine ⟨c, hc, hwithin, .inl ⟨.declared id uses array, ?_, ?_, ?_⟩⟩
    · simp only [exec_bind, hrun, conclude, Target.toUse, hfound c _ hc, exec_pure]
    · intro target hmem
      rcases List.mem_cons.mp hmem with rfl | hmem
      · exact Graph.lt_size_of_get? hd
      · exact hwithin.lt_size (huses target hmem)
    · simp [Answer.meaning, Use.outline, hd, Use.outlineEach_within hwithin uses huses]
  | builtin type =>
    refine ⟨b, hb, fun hd => hd, .inl ⟨.builtin type array, ?_, ?_, rfl⟩⟩
    · have hrun : w.exec b = (.ok (some (.builtin type)), b) := hw
      simp only [exec_bind, hrun, conclude, Target.toUse, hfound b _ hb, exec_pure]
    · intro target hmem
      cases hmem
  | aliased target =>
    have hrun : w.exec b = (do return some (.aliased (← inAlias target)) : Work _).exec b := hw
    obtain ⟨c, hc, hwithin, ⟨use, hexec, hregistered, hmeaning⟩ | ⟨fault', hexec, hmeaning⟩⟩ :=
      halias target rfl b hb
    · refine ⟨c, hc, hwithin, .inl
        ⟨use.withArray (ArrayShape.join array use.array), ?_, ?_, ?_⟩⟩
      · simp only [exec_bind, hrun, hexec, exec_pure, conclude, Target.toUse, hfound c _ hc]
      · rwa [Use.targets_withArray]
      · simp [Answer.meaning, hmeaning, Except.map, Use.outline_withArray, Use.array_outline]
    · refine ⟨c, hc, hwithin, .inr ⟨fault', ?_, ?_⟩⟩
      · simp only [exec_bind, hrun, hexec]
      · simp [Answer.meaning, hmeaning, Except.map]
  | unresolved =>
    have hrun : w.exec b = (.ok none, b) := hw
    refine ⟨b, hb, fun hd => hd, .inr ⟨fault, ?_, rfl⟩⟩
    simp only [exec_bind, hrun, conclude, exec_throw]
  | malformed cause =>
    obtain ⟨c, hrun, hc, hwithin⟩ := hw
    refine ⟨c, hc, hwithin, .inr ⟨.malformed cause, ?_, rfl⟩⟩
    simp only [exec_bind, hrun]

mutual

/-- A reference without dispute gives its meaning. -/
lemma resolveWith_means (ha : a.graph.Indexed) (hfound : ∀ c use, a.Enriched c → (found use).exec c = (.ok (), c))
    (halias : ∀ target, aliasFine target → Means a (inAlias target) (aliasMeaning target)) (scope : Scope) :
    ∀ ref : TypeRef, a.UndisputedWith aliasFine scope ref →
    Means a (resolveWith found inAlias scope ref) (a.meaningWith aliasMeaning scope ref)
  | .builtin type array, _ => by
    intro b hb
    rw [resolveWith, Atlas.meaningWith]
    refine ⟨b, hb, fun hd => hd, .inl ⟨.builtin type array, rfl, ?_, rfl⟩⟩
    intro target hmem
    cases hmem
  | .named name args array, hundisputed => by
    intro b hb
    rw [resolveWith, Atlas.meaningWith]
    rw [Atlas.UndisputedWith] at hundisputed
    cases hparam : paramFor? scope name args with
    | some param =>
      obtain ⟨position, owner, rfl⟩ := paramFor?_eq_some hparam
      refine ⟨b, hb, fun hd => hd, .inl ⟨_, rfl, ?_, rfl⟩⟩
      intro target hmem
      cases hmem
    | none =>
      rw [hparam] at hundisputed
      obtain ⟨hargs, hname, hfine⟩ := hundisputed
      obtain ⟨c, hc, hwithin, ⟨uses, hrun, huses, hmeaning⟩ | ⟨fault, hrun, hmeaning⟩⟩ :=
        resolveEachWith_means ha hfound halias scope args hargs b hb
      · obtain ⟨c', hc', hwithin', hhead⟩ := answered_means hc hfound
          (target?_answered ha hc inAlias fun d hbrought => hname d (hc.offered hbrought)) (fun target h => halias target (hfine target h))
          (.unresolved (TypeRef.named name args array).text scope.requester scope.location)
          array huses
        refine ⟨c', hc', fun hd => hwithin' (hwithin hd), ?_⟩
        simp only [hmeaning]
        rw [exec_bind, hrun]
        exact hhead
      · refine ⟨c, hc, hwithin, .inr ⟨fault, ?_, ?_⟩⟩
        · rw [exec_bind, hrun]
        · simp only [hmeaning]

lemma resolveEachWith_means (ha : a.graph.Indexed) (hfound : ∀ c use, a.Enriched c → (found use).exec c = (.ok (), c))
    (halias : ∀ target, aliasFine target → Means a (inAlias target) (aliasMeaning target)) (scope : Scope) :
    ∀ refs : List TypeRef, a.UndisputedEachWith aliasFine scope refs →
    MeansEach a (resolveEachWith found inAlias scope refs) (a.meaningEachWith aliasMeaning scope refs)
  | [], _ => by
    intro b hb
    rw [resolveEachWith, Atlas.meaningEachWith]
    refine ⟨b, hb, fun hd => hd, .inl ⟨[], rfl, ?_, rfl⟩⟩
    intro target hmem
    cases hmem
  | ref :: refs, hundisputed => by
    intro b hb
    rw [resolveEachWith, Atlas.meaningEachWith]
    rw [Atlas.UndisputedEachWith] at hundisputed
    obtain ⟨c, hc, hwithin, ⟨use, hrun, huse, hmeaning⟩ | ⟨fault, hrun, hmeaning⟩⟩ :=
      resolveWith_means ha hfound halias scope ref hundisputed.1 b hb
    · obtain ⟨c', hc', hwithin', ⟨uses, hrun', huses, hmeaning'⟩ | ⟨fault, hrun', hmeaning'⟩⟩ :=
        resolveEachWith_means ha hfound halias scope refs hundisputed.2 c hc
      · refine ⟨c', hc', fun hd => hwithin' (hwithin hd), .inl ⟨use :: uses, ?_, ?_, ?_⟩⟩
        · simp only [exec_bind, hrun, hrun', exec_pure]
        · intro target hmem
          rcases List.mem_append.mp hmem with hmem | hmem
          · exact hwithin'.lt_size (huse target hmem)
          · exact huses target hmem
        · simp [hmeaning, hmeaning', Except.map, Use.outlineEach, Use.outline_within hwithin' use huse]
      · refine ⟨c', hc', fun hd => hwithin' (hwithin hd), .inr ⟨fault, ?_, ?_⟩⟩
        · simp only [exec_bind, hrun, hrun']
        · simp [hmeaning, hmeaning', Except.map]
    · refine ⟨c, hc, hwithin, .inr ⟨fault, ?_, ?_⟩⟩
      · simp only [exec_bind, hrun]
      · simp [hmeaning]

end

mutual

/-- Resolving any reference enriches an atlas at most. -/
lemma resolveWith_keeps_enriched (ha : a.graph.Indexed) (hfound : ∀ use, Keeps a.Enriched (found use))
    (halias : ∀ target, Keeps a.Enriched (inAlias target)) (scope : Scope) :
    ∀ ref : TypeRef,
    Keeps a.Enriched (resolveWith found inAlias scope ref)
  | .builtin type array => by
    rw [resolveWith]
    exact Keeps.pure _
  | .named name args array => by
    rw [resolveWith]
    split
    · exact Keeps.pure _
    · refine (resolveEachWith_keeps_enriched ha hfound halias scope args).bind fun uses => ?_
      refine (target?_keeps_enriched ha halias scope name args.length).bind fun target => ?_
      cases target with
      | none => exact Keeps.throw _
      | some target => exact (hfound _).bind fun _ => Keeps.pure _

lemma resolveEachWith_keeps_enriched (ha : a.graph.Indexed) (hfound : ∀ use, Keeps a.Enriched (found use))
    (halias : ∀ target, Keeps a.Enriched (inAlias target)) (scope : Scope) :
    ∀ refs : List TypeRef,
    Keeps a.Enriched (resolveEachWith found inAlias scope refs)
  | [] => by
    rw [resolveEachWith]
    exact Keeps.pure _
  | ref :: refs => by
    rw [resolveEachWith]
    refine (resolveWith_keeps_enriched ha hfound halias scope ref).bind fun use => ?_
    refine (resolveEachWith_keeps_enriched ha hfound halias scope refs).bind fun uses => ?_
    exact Keeps.pure _

end

end Resolve

lemma exec_follow_of_enriched (hlazy : a.settings.loadPolicy = .lazy) (c : Atlas) (use : Use)
    (hc : a.Enriched c) : (follow use).exec c = (.ok (), c) :=
  exec_follow_of_lazy (by rw [hc.settings, hlazy]) use

lemma resolve_means (ha : a.graph.Indexed) (hlazy : a.settings.loadPolicy = .lazy) {scope : Scope}
    {ref : TypeRef} (hundisputed : a.Undisputed scope ref) :
    Means a (resolve scope ref) (a.meaning scope ref) := by
  have hfollow := exec_follow_of_enriched hlazy
  have halias : ∀ target, a.UndisputedWith (fun _ => True) scope.forAlias target →
      Means a (resolvePlain follow scope.forAlias target)
        (a.meaningWith (fun target => .error (.unresolved target.text scope.requester scope.location))
          scope.forAlias target) :=
    resolveWith_means ha hfollow (fun target _ => means_throw a _) scope.forAlias
  exact resolveWith_means ha hfollow halias scope ref hundisputed

lemma resolve_keeps_enriched (ha : a.graph.Indexed) (hlazy : a.settings.loadPolicy = .lazy)
    (scope : Scope) (ref : TypeRef) : Keeps a.Enriched (resolve scope ref) := by
  have hfollow : ∀ use, Keeps a.Enriched (follow use) := by
    intro use c hc
    rw [exec_follow_of_enriched hlazy c use hc]
    exact hc
  have hplain : ∀ target, Keeps a.Enriched (resolvePlain follow scope.forAlias target) :=
    resolveWith_keeps_enriched ha hfollow (fun _ => Keeps.throw _) scope.forAlias
  exact resolveWith_keeps_enriched ha hfollow hplain scope ref

end Work

mutual

/-- Registered declarations are told apart by their keys, and so uses by their outlines. -/
lemma Use.eq_of_outline_eq {g : Graph} (h : g.Indexed) : ∀ use use' : Use,
    (∀ target ∈ use.targets, target < g.size) → (∀ target ∈ use'.targets, target < g.size) →
      use.outline g = use'.outline g → use = use'
  | .declared id args array, .declared id' args' array', hregistered, hregistered', heq => by
    obtain ⟨d, hd⟩ := Graph.get?_of_lt_size (hregistered id (by simp [Use.targets]))
    obtain ⟨d', hd'⟩ := Graph.get?_of_lt_size (hregistered' id' (by simp [Use.targets]))
    simp only [Use.outline, hd, hd', Option.map_some, Outline.declared.injEq,
      Option.some.injEq] at heq
    obtain ⟨hkey, hargs, rfl⟩ := heq
    have hid := (h.byKey d.key id).mpr ⟨d, hd, rfl⟩
    rw [(h.byKey d.key id').mpr ⟨d', hd', hkey.symm⟩] at hid
    cases hid
    rw [Use.eq_of_outlineEach_eq h args args'
      (fun target hmem => hregistered target (by simp [Use.targets, hmem]))
      (fun target hmem => hregistered' target (by simp [Use.targets, hmem])) hargs]
  | .builtin type array, .builtin type' array', _, _, heq => by
    simpa [Use.outline] using heq
  | .param name position owner array, .param name' position' owner' array', _, _, heq => by
    simpa [Use.outline] using heq
  | .declared .., .builtin .., _, _, heq => by simp [Use.outline] at heq
  | .declared .., .param .., _, _, heq => by simp [Use.outline] at heq
  | .builtin .., .declared .., _, _, heq => by simp [Use.outline] at heq
  | .builtin .., .param .., _, _, heq => by simp [Use.outline] at heq
  | .param .., .declared .., _, _, heq => by simp [Use.outline] at heq
  | .param .., .builtin .., _, _, heq => by simp [Use.outline] at heq

lemma Use.eq_of_outlineEach_eq {g : Graph} (h : g.Indexed) : ∀ uses uses' : List Use,
    (∀ target ∈ Use.targetsEach uses, target < g.size) →
    (∀ target ∈ Use.targetsEach uses', target < g.size) →
      Use.outlineEach g uses = Use.outlineEach g uses' → uses = uses'
  | [], [], _, _, _ => rfl
  | [], _ :: _, _, _, heq => by simp [Use.outlineEach] at heq
  | _ :: _, [], _, _, heq => by simp [Use.outlineEach] at heq
  | use :: uses, use' :: uses', hregistered, hregistered', heq => by
    simp only [Use.outlineEach, List.cons.injEq] at heq
    rw [Use.eq_of_outline_eq h use use'
        (fun target hmem => hregistered target (by simp [Use.targetsEach, hmem]))
        (fun target hmem => hregistered' target (by simp [Use.targetsEach, hmem])) heq.1,
      Use.eq_of_outlineEach_eq h uses uses'
        (fun target hmem => hregistered target (by simp [Use.targetsEach, hmem]))
        (fun target hmem => hregistered' target (by simp [Use.targetsEach, hmem])) heq.2]

end

end TypeAtlas
