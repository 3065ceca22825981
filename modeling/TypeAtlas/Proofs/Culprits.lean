import TypeAtlas.Proofs.AttributeNames
import TypeAtlas.Proofs.HomeModule
import TypeAtlas.Proofs.NamesMeant

/-!
When resolution succeeds, and what it reports otherwise. A reference is walked through name by
name, the arguments of a name before the name itself. Main statement: resolution succeeds if and
only if every name has a target when its turn comes; otherwise the fault carries the first
reference that has none. Either way nothing happens to an atlas but that definitions which some
name asks for are registered.
-/

namespace TypeAtlas

open Metadata

variable {fullName : String} {d : Declaration} {library : Library} {row : Nat}

/-- A definition is stored under a full name: what stands before the last dot is the namespace,
and the name behind it is marked with the arity. -/
def Library.Stores (library : Library) (row : Nat) (fullName : String) (arity : Nat) : Prop :=
  row ∈ library.module.typeDefRows ∧ library.module.typeDefName row =
    .ok ((splitNamespace fullName).1, markArity (splitNamespace fullName).2 arity)

/-- Something answers to a full name with an arity: a declaration that is registered, a builtin
type, or a definition in a module that is available. -/
def Atlas.Has (a : Atlas) (fullName : String) (arity : Nat) : Prop :=
  (∃ id d, a.graph.get? id = some d ∧ d.fullName = fullName ∧ d.arity = arity) ∨
    (arity = 0 ∧ ∃ type : Builtin, type.runtimeFullName = fullName) ∨
    ∃ library ∈ a.libraries, ∃ row, library.Stores row fullName arity

/-- Whether a whole reference is the name of a generic parameter. -/
def Scope.namesParam (scope : Scope) (name : String) (args : List TypeRef) : Bool :=
  args.isEmpty && !name.toList.contains '.' && (scope.methodParams.contains name || scope.typeParams.contains name)

namespace TypeRef

mutual

/-- The parts of a reference that are looked up by name, in the order in which they are. -/
def sought (scope : Scope) : TypeRef → List TypeRef
  | .builtin .. => []
  | .named name args array =>
    if scope.namesParam name args then [] else soughtEach scope args ++ [.named name args array]

def soughtEach (scope : Scope) : List TypeRef → List TypeRef
  | [] => []
  | ref :: refs => ref.sought scope ++ soughtEach scope refs

end

end TypeRef

namespace Atlas

variable (scope : Scope)

/-- Something answers to one of the full names that a reference can stand for. -/
def HasTarget (a : Atlas) : TypeRef → Prop
  | .builtin .. => True
  | .named name args _ => ∃ fullName, scope.Means name fullName ∧ a.Has fullName args.length

/-- The atlas after the target of a reference was looked for. -/
def seek (a : Atlas) : TypeRef → Atlas
  | .builtin .. => a
  | .named name args _ =>
    ((Work.target? (Work.resolvePlain Work.follow scope.forAlias) scope name args.length).exec a).2

/-- The atlas after the targets of some references were looked for. -/
def afterSeeking (a : Atlas) (refs : List TypeRef) : Atlas := refs.foldl (seek scope) a

/-- Every reference has a target when its turn comes. -/
def Finds : Atlas → List TypeRef → Prop
  | _, [] => True
  | a, ref :: refs => a.HasTarget scope ref ∧ Finds (a.seek scope ref) refs

/-- A declaration for a definition that one of some references asks for. -/
def Wanted (a : Atlas) (refs : List TypeRef) (d : Declaration) : Prop :=
  ∃ library ∈ a.libraries, ∃ row name args array fullName, .named name args array ∈ refs ∧
    scope.Means name fullName ∧ library.Stores row fullName args.length ∧
    Declaration.ofDefinition none library row = .ok d

def Makes (a : Atlas) : Prop :=
  ∀ library ∈ a.libraries, ∀ row ∈ library.module.typeDefRows,
    ∃ d, Declaration.ofDefinition none library row = .ok d

end Atlas

lemma Builtin.ofRuntimeFullName?_ne_none_iff (fullName : String) :
    ofRuntimeFullName? fullName ≠ none ↔ ∃ type : Builtin, type.runtimeFullName = fullName := by
  constructor
  · intro h
    obtain ⟨type, htype⟩ := Option.ne_none_iff_exists'.mp h
    exact ⟨type, by simpa using List.find?_some htype⟩
  · rintro ⟨type, rfl⟩ hnone
    have hother := List.find?_eq_none.mp hnone type (mem_all type)
    simp at hother

lemma Builtin.first?_eq_none_iff {arity : Nat} {names : List String} :
    first? arity names = none ↔
      ∀ fullName ∈ names, ¬(arity = 0 ∧ ∃ type : Builtin, type.runtimeFullName = fullName) := by
  unfold first?
  split
  · rename_i harity
    rw [List.findSome?_eq_none_iff]
    refine forall₂_congr fun fullName _ => ?_
    rw [← ofRuntimeFullName?_ne_none_iff]
    simp [harity]
  · rename_i harity
    simp [harity]

namespace Library

variable {libraries : List Library} {arity : Nat}

lemma stores_of_first? (h : first? libraries arity fullName = some (library, row)) :
    library ∈ libraries ∧ library.Stores row fullName arity := by
  obtain ⟨other, hmem, hfound⟩ := List.exists_of_findSome?_eq_some h
  obtain ⟨_, hrow, heq⟩ := Option.map_eq_some_iff.mp hfound
  cases heq
  refine ⟨hmem, ?_, Module.typeDefName_of_findTypeDef hrow⟩
  exact List.mem_reverse.mp (List.mem_of_find?_eq_some hrow)

lemma first?_eq_none_iff :
    first? libraries arity fullName = none ↔ ∀ library ∈ libraries, ∀ row, ¬library.Stores row fullName arity := by
  unfold first?
  rw [List.findSome?_eq_none_iff]
  refine forall₂_congr fun library _ => ?_
  rw [Option.map_eq_none_iff, Module.findTypeDef, List.find?_eq_none]
  constructor
  · rintro h row ⟨hrow, hname⟩
    have hother := h row (List.mem_reverse.mpr hrow)
    rw [hname] at hother
    exact hother (beq_self_eq_true _)
  · intro h row hrow hfound
    cases hname : library.module.typeDefName row with
    | error cause =>
      rw [hname] at hfound
      cases hfound
    | ok found =>
      rw [hname] at hfound
      refine h row ⟨List.mem_reverse.mp hrow, ?_⟩
      rw [hname, eq_of_beq hfound]

end Library

namespace Work

variable {scope : Scope} {b : Atlas} {arity : Nat}

lemma exec_define_of_makes (hstores : library.Stores row fullName arity)
    (hd : Declaration.ofDefinition none library row = .ok d) (b : Atlas) :
    ∃ id, (define library row).exec b = (.ok id, b) ∨
      b.graph.findQualified d.key = none ∧
        (define library row).exec b = (.ok id, { b with graph := (b.graph.add d).2 }) := by
  rw [exec_define, Library.markedKey, hstores.2]
  dsimp only [bind, Except.bind, pure, Except.pure]
  cases b.graph.findQualified _ with
  | some id => exact ⟨id, .inl rfl⟩
  | none =>
    dsimp only
    rw [hd]
    dsimp only
    rcases b.graph.add_cases d with ⟨-, hsame⟩ | ⟨hfree, -, -, -⟩
    · exact ⟨_, .inl (by rw [hsame])⟩
    · exact ⟨_, .inr ⟨hfree, rfl⟩⟩

/-- What looking for a target comes to. A target is found, on the way to which a definition may
be registered, or there is none. -/
lemma exec_target?_cases (inAlias : TypeRef → Work Use) (name : String) (arity : Nat)
    (hplain : ¬scope.HasGenericAlias) (hb : b.graph.Indexed) (hmakes : b.Makes) :
    ((∃ fullName, scope.Means name fullName ∧ b.Has fullName arity) ∧
        ∃ target c, (target? inAlias scope name arity).exec b = (.ok (some target), c) ∧
          (c = b ∨ ∃ library ∈ b.libraries, ∃ row fullName d, scope.Means name fullName ∧
            library.Stores row fullName arity ∧ Declaration.ofDefinition none library row = .ok d ∧
            b.graph.findQualified d.key = none ∧ c = { b with graph := (b.graph.add d).2 })) ∨
      (¬∃ fullName, scope.Means name fullName ∧ b.Has fullName arity) ∧
        (target? inAlias scope name arity).exec b = (.ok none, b) := by
  rw [exec_target?]
  cases hmatch : b.graph.match? scope.location arity (scope.candidates name) with
  | some found =>
    cases found with
    | inl id =>
      obtain ⟨fullName, hname, hlookup⟩ := Graph.name_of_match? hmatch
      obtain ⟨d, hd⟩ := hb.get?_lookup hlookup
      exact .inl ⟨⟨fullName, (Scope.mem_names_iff hplain).mp hname, .inl ⟨id, d, hd⟩⟩, _, b, rfl, .inl rfl⟩
    | inr target => exact absurd (Graph.mem_of_match?_eq_inr hmatch) (Scope.not_aliased hplain name target)
  | none =>
    dsimp only
    cases hbuiltin : Builtin.first? arity (Candidate.names (scope.candidates name)) with
    | some type =>
      obtain ⟨fullName, hname, hpredefined⟩ : ∃ fullName ∈ Candidate.names (scope.candidates name),
          arity = 0 ∧ ∃ type : Builtin, type.runtimeFullName = fullName := by
        by_contra hnone
        rw [Builtin.first?_eq_none_iff.mpr fun fullName hname h => hnone ⟨fullName, hname, h⟩] at hbuiltin
        cases hbuiltin
      exact .inl ⟨⟨fullName, (Scope.mem_names_iff hplain).mp hname, .inr (.inl hpredefined)⟩, _, b, rfl, .inl rfl⟩
    | none =>
      dsimp only
      cases hfirst : (Candidate.names (scope.candidates name)).findSome? (Library.first? b.libraries arity) with
      | some found =>
        obtain ⟨library, row⟩ := found
        obtain ⟨fullName, hname, hdefined⟩ := List.exists_of_findSome?_eq_some hfirst
        obtain ⟨hmem, hstores⟩ := Library.stores_of_first? hdefined
        obtain ⟨d, hd⟩ := hmakes library hmem row hstores.1
        have hmeans := (Scope.mem_names_iff hplain).mp hname
        refine .inl ⟨⟨fullName, hmeans, .inr (.inr ⟨library, hmem, row, hstores⟩)⟩, ?_⟩
        dsimp only
        obtain ⟨id, hrun | ⟨hfree, hrun⟩⟩ := exec_define_of_makes hstores hd b
        · exact ⟨_, b, by rw [hrun], .inl rfl⟩
        · exact ⟨_, _, by rw [hrun], .inr ⟨library, hmem, row, fullName, d, hmeans, hstores, hd, hfree, rfl⟩⟩
      | none =>
        refine .inr ⟨?_, rfl⟩
        rintro ⟨fullName, hmeans, hregistered | hpredefined | ⟨library, hmem, row, hstores⟩⟩
        · obtain ⟨id, d, hd, rfl, rfl⟩ := hregistered
          have hname := (Scope.mem_names_iff hplain).mpr hmeans
          exact hb.lookup_ne_none hd _ (Graph.lookup_of_match?_eq_none hmatch hname)
        · have hname := (Scope.mem_names_iff hplain).mpr hmeans
          exact Builtin.first?_eq_none_iff.mp hbuiltin fullName hname hpredefined
        · have hnone := List.findSome?_eq_none_iff.mp hfirst fullName ((Scope.mem_names_iff hplain).mpr hmeans)
          exact Library.first?_eq_none_iff.mp hnone library hmem row hstores

end Work

namespace Atlas

variable {scope : Scope} {a b : Atlas} {ref : TypeRef} {refs refs' : List TypeRef}

/-- An atlas that follows no use and whose definitions can all be made declarations. -/
structure Ready (a : Atlas) : Prop where
  indexed : a.graph.Indexed
  lazy : a.settings.loadPolicy = .lazy
  makes : a.Makes

@[simp] lemma afterSeeking_nil : a.afterSeeking scope [] = a := rfl

@[simp] lemma afterSeeking_append :
    a.afterSeeking scope (refs ++ refs') = (a.afterSeeking scope refs).afterSeeking scope refs' :=
  List.foldl_append

lemma finds_append : a.Finds scope (refs ++ refs') ↔
    a.Finds scope refs ∧ (a.afterSeeking scope refs).Finds scope refs' := by
  induction refs generalizing a with
  | nil => simp [Finds]
  | cons ref refs ih =>
    rw [List.cons_append, Finds, Finds, ih, and_assoc]
    rfl

/-- Looking for a target registers at most one definition, which the reference asks for. -/
lemma seek_cases (hplain : ¬scope.HasGenericAlias) (hb : b.Ready) (ref : TypeRef) :
    b.seek scope ref = b ∨ ∃ d, b.Wanted scope [ref] d ∧ b.graph.findQualified d.key = none ∧
      b.seek scope ref = { b with graph := (b.graph.add d).2 } := by
  cases ref with
  | builtin type array => exact .inl rfl
  | named name args array =>
    rcases Work.exec_target?_cases (Work.resolvePlain Work.follow scope.forAlias) name args.length hplain
        hb.indexed hb.makes with
      ⟨-, target, c, hrun, hc⟩ | ⟨-, hrun⟩
    · rw [seek, hrun]
      rcases hc with rfl | ⟨library, hmem, row, fullName, d, hmeans, hstores, hd, hfree, rfl⟩
      · exact .inl rfl
      · refine .inr ⟨d, ?_, hfree, rfl⟩
        exact ⟨library, hmem, row, name, args, array, fullName, List.mem_cons_self, hmeans, hstores, hd⟩
    · rw [seek, hrun]
      exact .inl rfl

lemma Ready.seek (hplain : ¬scope.HasGenericAlias) (hb : b.Ready) (ref : TypeRef) : (b.seek scope ref).Ready := by
  rcases seek_cases hplain hb ref with hsame | ⟨d, -, -, hseek⟩
  · rwa [hsame]
  · rw [hseek]
    exact ⟨hb.indexed.add d, hb.lazy, hb.makes⟩

lemma Ready.afterSeeking (hplain : ¬scope.HasGenericAlias) (ha : a.Ready) (refs : List TypeRef) :
    (a.afterSeeking scope refs).Ready := by
  induction refs generalizing a with
  | nil => exact ha
  | cons ref refs ih => exact ih (ha.seek hplain ref)

lemma Wanted.mono (h : a.Wanted scope refs d) (hsub : refs ⊆ refs') : a.Wanted scope refs' d := by
  obtain ⟨library, hmem, row, name, args, array, fullName, hname, htold⟩ := h
  exact ⟨library, hmem, row, name, args, array, fullName, hsub hname, htold⟩

/-- What was registered on the way are definitions that the references ask for. -/
lemma supplied_afterSeeking (hplain : ¬scope.HasGenericAlias) (ha : a.Ready) (refs : List TypeRef) :
    ∃ added, a.Supplied (· ∈ a.libraries) added (a.afterSeeking scope refs) ∧ ∀ d ∈ added, a.Wanted scope refs d := by
  induction refs using List.reverseRecOn with
  | nil => exact ⟨[], .start, fun _ hd => nomatch hd⟩
  | append_singleton refs ref ih =>
    obtain ⟨added, hsupplied, hwanted⟩ := ih
    have hold : ∀ d ∈ added, a.Wanted scope (refs ++ [ref]) d :=
      fun d hd => (hwanted d hd).mono (List.subset_append_left _ _)
    have hlast : a.afterSeeking scope (refs ++ [ref]) = (a.afterSeeking scope refs).seek scope ref :=
      afterSeeking_append
    rw [hlast]
    rcases seek_cases hplain (ha.afterSeeking hplain refs) ref with hsame | ⟨d, hd, hfree, hseek⟩
    · rw [hsame]
      exact ⟨added, hsupplied, hold⟩
    · have hd' : a.Wanted scope (refs ++ [ref]) d := by
        obtain ⟨library, hmem, htold⟩ := hd.mono (List.subset_append_right refs [ref])
        exact ⟨library, hsupplied.libraries ▸ hmem, htold⟩
      obtain ⟨library, hmem, row, -, -, -, -, -, -, -, hdefined⟩ := id hd'
      refine ⟨added ++ [d], ?_, ?_⟩
      · have hmore := hsupplied.more hmem hdefined hfree
        rwa [← hseek] at hmore
      · intro e he
        rcases List.mem_append.mp he with he | he
        · exact hold e he
        · rw [List.mem_singleton.mp he]
          exact hd'

/-- Nothing else happened on the way, and nothing that was registered is loaded. -/
lemma added_afterSeeking (hplain : ¬scope.HasGenericAlias) (ha : a.Ready) (hsub : refs ⊆ refs') :
    ∃ added, a.afterSeeking scope refs = { a with graph := a.graph.addAll added } ∧
      (a.afterSeeking scope refs).graph.declarations = a.graph.declarations ++ added.toArray ∧
      (a.afterSeeking scope refs).graph.edges = a.graph.edges ∧
      ∀ d ∈ added, d.loaded = false ∧ d.shape = {} ∧ d.data = {} ∧ a.Wanted scope refs' d := by
  obtain ⟨added, hsupplied, hwanted⟩ := supplied_afterSeeking hplain ha refs
  refine ⟨added, hsupplied.eq_addAll, hsupplied.declarations, hsupplied.edges, fun d hd => ?_⟩
  have hwanted := (hwanted d hd).mono hsub
  obtain ⟨_, -, _, _, _, _, _, -, -, -, hdefined⟩ := id hwanted
  obtain ⟨_, _, _, _, -, -, -, rfl⟩ := Declaration.ofDefinition_eq_ok hdefined
  exact ⟨rfl, rfl, rfl, hwanted⟩

end Atlas

namespace Work

variable {α β : Type} {scope : Scope} {a : Atlas} {refs refs' : List TypeRef} {w : Work α} {name : String}

/-- Work that looks for the targets of some references. It succeeds where all are found, and
fails at the first that is not. -/
def Walks (scope : Scope) (a : Atlas) (refs : List TypeRef) (w : Work α) : Prop :=
  (a.Finds scope refs ∧ ∃ x, w.exec a = (.ok x, a.afterSeeking scope refs)) ∨
    ∃ before ref after, refs = before ++ ref :: after ∧ a.Finds scope before ∧
      ¬(a.afterSeeking scope before).HasTarget scope ref ∧
      w.exec a = (.error (.unresolved ref.text scope.requester scope.location), a.afterSeeking scope before)

lemma Walks.pure (x : α) : Walks scope a [] (Pure.pure x) := .inl ⟨trivial, x, rfl⟩

lemma Walks.bind {f : α → Work β} (h : Walks scope a refs w)
    (hf : ∀ x, Walks scope (a.afterSeeking scope refs) refs' (f x)) : Walks scope a (refs ++ refs') (w >>= f) := by
  rcases h with ⟨hfinds, x, hrun⟩ | ⟨before, ref, after, rfl, hfinds, hnone, hrun⟩
  · rcases hf x with ⟨hfinds', y, hrun'⟩ | ⟨before, ref, after, rfl, hfinds', hnone, hrun'⟩
    · refine .inl ⟨Atlas.finds_append.mpr ⟨hfinds, hfinds'⟩, y, ?_⟩
      rw [exec_bind, hrun, Atlas.afterSeeking_append]
      exact hrun'
    · refine .inr ⟨refs ++ before, ref, after, (List.append_assoc ..).symm, ?_, ?_, ?_⟩
      · exact Atlas.finds_append.mpr ⟨hfinds, hfinds'⟩
      · rwa [Atlas.afterSeeking_append]
      · rw [exec_bind, hrun, Atlas.afterSeeking_append]
        exact hrun'
  · refine .inr ⟨before, ref, after ++ refs', by simp, hfinds, hnone, ?_⟩
    rw [exec_bind, hrun]

lemma param?_eq_none_iff : scope.param? name = none ↔ name ∉ scope.methodParams ∧ name ∉ scope.typeParams := by
  unfold Scope.param?
  cases hmethod : scope.methodParams.idxOf? name with
  | some position =>
    have hmem : name ∈ scope.methodParams := by
      by_contra hnone
      rw [List.idxOf?_eq_none_iff.mpr hnone] at hmethod
      cases hmethod
    simp [hmem]
  | none => simp [List.idxOf?_eq_none_iff.mp hmethod]

lemma paramFor?_eq_none_iff {args : List TypeRef} :
    paramFor? scope name args = none ↔ scope.namesParam name args = false := by
  unfold paramFor? Scope.namesParam
  cases args.isEmpty && !name.toList.contains '.' with
  | false => simp
  | true => simp [param?_eq_none_iff]

/-- Looking for one target, and what is done with it. -/
lemma walks_target? (hplain : ¬scope.HasGenericAlias) (ha : a.Ready) (name : String) (args : List TypeRef)
    (array : Option ArrayShape) (uses : List Use) :
    Walks scope a [.named name args array] (do
      match ← target? (resolvePlain follow scope.forAlias) scope name args.length with
      | none => throw (.unresolved (TypeRef.named name args array).text scope.requester scope.location)
      | some target =>
        follow (target.toUse uses array)
        return target.toUse uses array : Work Use) := by
  rcases exec_target?_cases (resolvePlain follow scope.forAlias) name args.length hplain ha.indexed ha.makes with
    ⟨hhas, target, c, hrun, -⟩ | ⟨hnone, hrun⟩
  · have hseek : a.seek scope (.named name args array) = c := by rw [Atlas.seek, hrun]
    have hready := ha.seek hplain (.named name args array)
    rw [hseek] at hready
    refine .inl ⟨⟨hhas, trivial⟩, target.toUse uses array, ?_⟩
    rw [exec_bind, hrun]
    dsimp only
    rw [exec_bind, exec_follow_of_lazy hready.lazy]
    exact congrArg (Prod.mk _) hseek.symm
  · refine .inr ⟨[], _, [], rfl, trivial, hnone, ?_⟩
    rw [exec_bind, hrun]
    rfl

mutual

/-- Resolving a reference looks for the targets of its names. -/
lemma resolveWith_walks (hplain : ¬scope.HasGenericAlias) : ∀ (ref : TypeRef) {a : Atlas}, a.Ready →
    Walks scope a (ref.sought scope) (resolveWith follow (resolvePlain follow scope.forAlias) scope ref)
  | .builtin type array, a, _ => by
    rw [resolveWith, TypeRef.sought]
    exact Walks.pure _
  | .named name args array, a, ha => by
    rw [resolveWith, TypeRef.sought]
    cases hparam : paramFor? scope name args with
    | some param =>
      have hnames : scope.namesParam name args = true := by
        by_contra hnot
        rw [paramFor?_eq_none_iff.mpr (by simpa using hnot)] at hparam
        cases hparam
      rw [if_pos hnames]
      exact Walks.pure _
    | none =>
      have hnames := paramFor?_eq_none_iff.mp hparam
      rw [if_neg (by simp [hnames])]
      refine (resolveEachWith_walks hplain args ha).bind fun uses => ?_
      exact walks_target? hplain (ha.afterSeeking hplain _) name args array uses

lemma resolveEachWith_walks (hplain : ¬scope.HasGenericAlias) : ∀ (refs : List TypeRef) {a : Atlas}, a.Ready →
    Walks scope a (TypeRef.soughtEach scope refs)
      (resolveEachWith follow (resolvePlain follow scope.forAlias) scope refs)
  | [], a, _ => by
    rw [resolveEachWith, TypeRef.soughtEach]
    exact Walks.pure _
  | ref :: refs, a, ha => by
    rw [resolveEachWith, TypeRef.soughtEach]
    refine (resolveWith_walks hplain ref ha).bind fun use => ?_
    rw [← List.append_nil (TypeRef.soughtEach scope refs)]
    exact (resolveEachWith_walks hplain refs (ha.afterSeeking hplain _)).bind fun uses => Walks.pure _

end

end Work

namespace Atlas

/-- A reference is resolved if and only if each of its names has a target when its turn comes.
Otherwise the fault carries the first part without a target, and who asks and where. In either
case all that changes is that unloaded declarations stand behind all others, for definitions of
available modules that some part asks for. -/
theorem resolve_finds_or_reports (settings : Settings) (calls : List Call) (a : Atlas) (scope : Scope) (ref : TypeRef)
    (hlazy : settings.loadPolicy = .lazy) (ha : a = ({ settings } : Atlas).afterAll calls) (hmakes : a.Makes)
    (hplain : ¬scope.HasGenericAlias) :
    ((∃ use b, (Work.resolve scope ref).exec a = (.ok use, b)) ↔ a.Finds scope (ref.sought scope)) ∧
      (¬a.Finds scope (ref.sought scope) →
        ∃ before part after, ref.sought scope = before ++ part :: after ∧ a.Finds scope before ∧
          ¬(a.afterSeeking scope before).HasTarget scope part ∧
          ((Work.resolve scope ref).exec a).1 =
            .error (.unresolved part.text scope.requester scope.location)) ∧
      ∃ added, ((Work.resolve scope ref).exec a).2 = { a with graph := a.graph.addAll added } ∧
        ((Work.resolve scope ref).exec a).2.graph.declarations = a.graph.declarations ++ added.toArray ∧
        ((Work.resolve scope ref).exec a).2.graph.edges = a.graph.edges ∧
        ∀ d ∈ added, d.loaded = false ∧ d.shape = {} ∧ d.data = {} ∧ a.Wanted scope (ref.sought scope) d := by
  have hready : a.Ready := by
    refine ⟨?_, ?_, hmakes⟩
    · rw [ha]
      exact indexed_afterAll settings calls
    · rw [ha, settings_afterAll settings calls]
      exact hlazy
  rcases Work.resolveWith_walks hplain ref hready with
    ⟨hfinds, use, hrun⟩ | ⟨before, part, after, hsought, hfinds, hnone, hrun⟩
  · refine ⟨⟨fun _ => hfinds, fun _ => ⟨use, _, hrun⟩⟩, fun hnot => absurd hfinds hnot, ?_⟩
    have hstate : ((Work.resolve scope ref).exec a).2 = a.afterSeeking scope (ref.sought scope) :=
      congrArg Prod.snd hrun
    rw [hstate]
    exact added_afterSeeking hplain hready (List.Subset.refl _)
  · have hnot : ¬a.Finds scope (ref.sought scope) := by
      rw [hsought, finds_append]
      exact fun h => hnone h.2.1
    refine ⟨⟨?_, fun h => absurd h hnot⟩, fun _ => ?_, ?_⟩
    · rintro ⟨use, b, hok⟩
      cases (Prod.mk.inj (hok.symm.trans hrun)).1
    · exact ⟨before, part, after, hsought, hfinds, hnone, congrArg Prod.fst hrun⟩
    · have hstate : ((Work.resolve scope ref).exec a).2 = a.afterSeeking scope before := congrArg Prod.snd hrun
      rw [hstate, hsought]
      exact added_afterSeeking hplain hready (List.subset_append_left _ _)

/-- A shop with two generic types, next to the module of wheels. -/
def tillCalls : List Call :=
  [.addLibrary wheels,
    .addDocument (.read "shop.cs" "namespace Shop \x7b class Box<T> \x7b \x7d class Pair<A, B> \x7b \x7d \x7d")]

def tillScope : Scope where
  requester := "Shop.Front.Till"
  location := "till.cs"
  ns := "Shop.Front"
  usings := ["Wheels"]

/-- A pair of a box that can be found, with a wheel in it that comes from the module, and of a
name that nothing answers to. -/
def tillPair : TypeRef := .named "Pair" [.named "Box" [.named "Wheel" [] none] none, .named "Lost" [] none] none

theorem resolve_finds_or_reports_till :
    let a := ({ settings := {} } : Atlas).afterAll tillCalls
    a.Makes ∧ ¬tillScope.HasGenericAlias ∧
      (tillPair.sought tillScope).map (·.text) = ["Wheel", "Box<Wheel>", "Lost", "Pair<Box<Wheel>, Lost>"] ∧
      ((∃ use b, (Work.resolve tillScope tillPair).exec a = (.ok use, b)) ↔ a.Finds tillScope (tillPair.sought tillScope)) ∧
      (¬a.Finds tillScope (tillPair.sought tillScope) →
        ∃ before part after, tillPair.sought tillScope = before ++ part :: after ∧ a.Finds tillScope before ∧
          ¬(a.afterSeeking tillScope before).HasTarget tillScope part ∧
          ((Work.resolve tillScope tillPair).exec a).1 =
            .error (.unresolved part.text tillScope.requester tillScope.location)) ∧
      ∃ added, ((Work.resolve tillScope tillPair).exec a).2 = { a with graph := a.graph.addAll added } ∧
        ((Work.resolve tillScope tillPair).exec a).2.graph.declarations = a.graph.declarations ++ added.toArray ∧
        ((Work.resolve tillScope tillPair).exec a).2.graph.edges = a.graph.edges ∧
        ∀ d ∈ added, d.loaded = false ∧ d.shape = {} ∧ d.data = {} ∧ a.Wanted tillScope (tillPair.sought tillScope) d := by
  intro a
  have hmakes : a.Makes := by
    have hall : a.libraries.all fun library => library.module.typeDefRows.all fun row =>
        (Declaration.ofDefinition none library row).isOk := by
      decide +kernel
    intro library hlibrary row hrow
    exact exists_of_isOk (List.all_eq_true.mp (List.all_eq_true.mp hall library hlibrary) row hrow)
  have hplain : ¬tillScope.HasGenericAlias := by
    rintro ⟨title, target, ref, hmem, -⟩
    have hequals : '=' ∈ (title ++ "=" ++ target).toList := by simp
    rw [List.mem_singleton.mp hmem] at hequals
    exact absurd hequals (by decide)
  exact ⟨hmakes, hplain, by decide, resolve_finds_or_reports {} tillCalls a tillScope tillPair rfl rfl hmakes hplain⟩

end Atlas

end TypeAtlas
