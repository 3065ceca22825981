import TypeAtlas.Proofs.Closure
import TypeAtlas.Proofs.Enrichment
import TypeAtlas.Proofs.LazyLoading

/-!
The two readings of an attribute's name. The longer one goes first; whether the name as
written is tried after it is decided on the text of a fault. Main statement: the name as
written is tried where nothing answers to the longer one, and otherwise only where the longer
one is found and a later step fails with a fault that reads the same. Such a fault comes from
the target of an alias that mentions the longer reference, or from a load.
-/

namespace TypeAtlas

variable {args : List TypeRef}

lemma Text.length_le_joinWith {gap part : String} {parts : List String} (h : part ∈ parts) :
    part.length ≤ (joinWith gap parts).length := by
  induction parts with
  | nil => cases h
  | cons first rest ih =>
    cases rest with
    | nil =>
      rw [List.mem_singleton.mp h]
      exact Nat.le_refl _
    | cons second rest =>
      simp only [joinWith, String.length_append]
      rcases List.mem_cons.mp h with rfl | hrest
      · omega
      · have hle := ih hrest
        omega

namespace TypeRef

mutual

/-- The texts of the names in a reference, its own first and then those in its arguments. -/
def mentions : TypeRef → List String
  | .builtin .. => []
  | .named name args array => (TypeRef.named name args array).text :: mentionsEach args

def mentionsEach : List TypeRef → List String
  | [] => []
  | ref :: refs => ref.mentions ++ mentionsEach refs

end

/-- The arguments stand in the text of a reference with brackets around them. -/
lemma length_lt_text {part : String} (h : part ∈ textEach args) (name : String) (array : Option ArrayShape) :
    part.length < (TypeRef.named name args array).text.length := by
  cases args with
  | nil => cases h
  | cons first rest =>
    have hle : part.length ≤ (Text.joinWith ", " (first.text :: textEach rest)).length :=
      Text.length_le_joinWith h
    have hopen : "<".length = 1 := rfl
    simp only [text, String.length_append, hopen]
    omega

mutual

lemma length_le_of_mem_mentions : ∀ (ref : TypeRef) {s : String}, s ∈ ref.mentions →
    s.length ≤ ref.text.length
  | .builtin .., s, h => by cases h
  | .named name args array, s, h => by
    rw [mentions] at h
    rcases List.mem_cons.mp h with rfl | hargs
    · exact Nat.le_refl _
    · obtain ⟨part, hpart, hle⟩ := exists_text_of_mem_mentionsEach args hargs
      exact Nat.le_of_lt (Nat.lt_of_le_of_lt hle (length_lt_text hpart name array))

lemma exists_text_of_mem_mentionsEach : ∀ (refs : List TypeRef) {s : String},
    s ∈ mentionsEach refs → ∃ part ∈ textEach refs, s.length ≤ part.length
  | [], s, h => by cases h
  | ref :: refs, s, h => by
    rw [mentionsEach] at h
    rw [textEach]
    rcases List.mem_append.mp h with hfirst | hrest
    · exact ⟨ref.text, List.mem_cons_self, length_le_of_mem_mentions ref hfirst⟩
    · obtain ⟨part, hpart, hle⟩ := exists_text_of_mem_mentionsEach refs hrest
      exact ⟨part, List.mem_cons_of_mem _ hpart, hle⟩

end

/-- No argument reads like the whole reference. -/
lemma ne_text_of_mem_mentionsEach {s : String} (h : s ∈ mentionsEach args) (name : String)
    (array : Option ArrayShape) : s ≠ (TypeRef.named name args array).text := by
  obtain ⟨part, hpart, hle⟩ := exists_text_of_mem_mentionsEach args h
  have hlt := length_lt_text hpart name array
  rintro rfl
  omega

end TypeRef

/-- Some alias in the scope is of a type with arguments that mentions a text. -/
def Scope.AliasMentions (scope : Scope) (s : String) : Prop :=
  ∃ name target, .aliased target ∈ scope.candidates name ∧ s ∈ target.mentions

lemma Scope.not_aliased_of_usings_nil {scope : Scope} (h : scope.usings = []) (name : String)
    (target : TypeRef) : .aliased target ∉ scope.candidates name := by
  simp [candidates, h]

lemma Graph.mem_of_match?_eq_inr {g : Graph} {location : String} {arity : Nat} {target : TypeRef}
    {candidates : List Candidate} (h : g.match? location arity candidates = some (.inr target)) :
    .aliased target ∈ candidates := by
  fun_induction g.match? location arity candidates with
  | case1 => cases h
  | case2 => cases h
  | case3 fullName rest hlookup ih => exact List.mem_cons_of_mem _ (ih h)
  | case4 found rest harity =>
    cases h
    exact List.mem_cons_self
  | case5 found rest harity ih => exact List.mem_cons_of_mem _ (ih h)

/-- Nothing registered, builtin or in a module answers to a name, and no alias does. -/
structure Atlas.Lacks (a : Atlas) (scope : Scope) (name : String) (arity : Nat) : Prop where
  registered : a.graph.match? scope.location arity (scope.candidates name) = none
  builtin : Builtin.first? arity (Candidate.names (scope.candidates name)) = none
  libraries : (Candidate.names (scope.candidates name)).findSome?
    (Library.first? a.libraries arity) = none

namespace Work

variable {α β : Type} {a b : Atlas} {scope : Scope} {name : String} {arity : Nat}
  {found : Use → Work Unit} {inAlias : TypeRef → Work Use}

lemma exec_target?_of_lacks (h : a.Lacks scope name arity) :
    (target? inAlias scope name arity).exec a = (.ok none, a) := by
  rw [exec_target?, h.registered]
  dsimp only
  rw [h.builtin]
  dsimp only
  rw [h.libraries]

lemma lacks_of_target? (h : (target? inAlias scope name arity).exec a = (.ok none, b)) :
    a.Lacks scope name arity := by
  rw [exec_target?] at h
  split at h
  · cases h
  · obtain ⟨use, c, -, hreturn⟩ := exec_bind_eq_ok h
    cases hreturn
  · rename_i hregistered
    split at h
    · cases h
    · rename_i hbuiltin
      split at h
      · split at h <;> cases h
      · rename_i hlibraries
        exact ⟨hregistered, hbuiltin, hlibraries⟩

lemma resolveEachWith_eq_mapM (found : Use → Work Unit) (inAlias : TypeRef → Work Use)
    (scope : Scope) (refs : List TypeRef) :
    resolveEachWith found inAlias scope refs = refs.mapM (resolveWith found inAlias scope) := by
  induction refs with
  | nil => rfl
  | cons ref refs ih => rw [resolveEachWith, ih, List.mapM_cons]

/-- Work that keeps a property of atlases and fails from them in some ways only. -/
structure FailsOnly (P : Atlas → Prop) (F : Fault → Atlas → Prop) (w : Work α) : Prop where
  keeps : Keeps P w
  fails : ∀ a fault b, P a → w.exec a = (.error fault, b) → F fault b

namespace FailsOnly

variable {P : Atlas → Prop} {F : Fault → Atlas → Prop} {w : Work α}

lemma pure (x : α) : FailsOnly P F (Pure.pure x) := ⟨.pure x, fun _ _ _ _ h => by cases h⟩

lemma throw {fault : Fault} (h : ∀ b, F fault b) :
    FailsOnly P F (MonadExcept.throw fault : Work α) where
  keeps := .throw fault
  fails := by
    intro a _ _ _ hrun
    cases hrun
    exact h a

lemma bind {f : α → Work β} (h : FailsOnly P F w) (hf : ∀ x, FailsOnly P F (f x)) :
    FailsOnly P F (w >>= f) where
  keeps := h.keeps.bind fun x => (hf x).keeps
  fails := by
    intro a fault c ha hrun
    rcases exec_bind_eq_error hrun with hfirst | ⟨x, b, hfirst, hsecond⟩
    · exact h.fails a fault c ha hfirst
    · have hb := h.keeps a ha
      rw [hfirst] at hb
      exact (hf x).fails b fault c hb hsecond

lemma imp {F' : Fault → Atlas → Prop} (h : FailsOnly P F w) (hF : ∀ fault b, F fault b → F' fault b) :
    FailsOnly P F' w :=
  ⟨h.keeps, fun a fault b ha hrun => hF fault b (h.fails a fault b ha hrun)⟩

lemma get : FailsOnly P F (MonadState.get : Work Atlas) :=
  ⟨fun _ ha => ha, fun _ _ _ _ hrun => by cases hrun⟩

lemma graph : FailsOnly P F Work.graph :=
  ⟨fun _ ha => ha, fun _ _ _ _ hrun => by cases hrun⟩

end FailsOnly

/-- Definitions and what `found` does keep to some ways to fail. -/
structure Held (P : Atlas → Prop) (F : Fault → Atlas → Prop) (found : Use → Work Unit) : Prop where
  define : ∀ library row, Keeps P (define library row)
  malformed : ∀ cause b, F (.malformed cause) b
  found : ∀ use, FailsOnly P F (found use)

namespace Held

variable {P : Atlas → Prop} {F : Fault → Atlas → Prop}

lemma defineOne (h : Held P F found) (library : Library) (row : Nat) :
    FailsOnly P F (Work.define library row) where
  keeps := h.define library row
  fails := by
    intro a fault b _ hrun
    obtain ⟨cause, rfl⟩ := malformed_of_define hrun
    exact h.malformed cause b

lemma first (h : Held P F found) (arity : Nat) (names : List String) :
    FailsOnly P F (defineFirst arity names) := by
  unfold defineFirst
  apply FailsOnly.get.bind
  intro atlas
  split
  · rename_i library row _
    apply (h.defineOne library row).bind
    exact fun id => .pure _
  · exact .pure _

lemma target (h : Held P F found)
    (halias : ∀ target, .aliased target ∈ scope.candidates name → FailsOnly P F (inAlias target))
    (arity : Nat) : FailsOnly P F (target? inAlias scope name arity) := by
  unfold target?
  apply FailsOnly.graph.bind
  intro g
  split
  · exact .pure _
  · rename_i target hmatch
    apply (halias target (Graph.mem_of_match?_eq_inr hmatch)).bind
    exact fun use => .pure _
  · dsimp only
    split
    · exact .pure _
    · apply (h.first arity _).bind
      exact fun id => .pure _

mutual

/-- Resolving a reference keeps to ways to fail that allow the names it mentions to be
unresolved, if the targets of the aliases in sight keep to them. -/
lemma reference (h : Held P F found)
    (halias : ∀ name target, .aliased target ∈ scope.candidates name → FailsOnly P F (inAlias target)) :
    ∀ ref : TypeRef,
    (∀ s ∈ ref.mentions, ∀ b, F (.unresolved s scope.requester scope.location) b) →
      FailsOnly P F (resolveWith found inAlias scope ref)
  | .builtin type array, _ => by
    rw [resolveWith]
    exact .pure _
  | .named name args array, hmentions => by
    rw [TypeRef.mentions, List.forall_mem_cons] at hmentions
    rw [resolveWith]
    split
    · exact .pure _
    · apply (references h halias args hmentions.2).bind
      intro uses
      apply (h.target (halias name) args.length).bind
      intro target
      cases target with
      | none => exact .throw hmentions.1
      | some target =>
        apply (h.found (target.toUse uses array)).bind
        exact fun _ => .pure _

lemma references (h : Held P F found)
    (halias : ∀ name target, .aliased target ∈ scope.candidates name → FailsOnly P F (inAlias target)) :
    ∀ refs : List TypeRef,
    (∀ s ∈ TypeRef.mentionsEach refs, ∀ b, F (.unresolved s scope.requester scope.location) b) →
      FailsOnly P F (resolveEachWith found inAlias scope refs)
  | [], _ => by
    rw [resolveEachWith]
    exact .pure _
  | ref :: refs, hmentions => by
    rw [TypeRef.mentionsEach, List.forall_mem_append] at hmentions
    rw [resolveEachWith]
    apply (reference h halias ref hmentions.1).bind
    intro use
    apply (references h halias refs hmentions.2).bind
    exact fun uses => .pure _

end

lemma aliasTarget (h : Held P F found) (scope : Scope) {target : TypeRef}
    (hmentions : ∀ s ∈ target.mentions, ∀ b, F (.unresolved s scope.requester scope.location) b) :
    FailsOnly P F (resolvePlain found scope.forAlias target) := by
  unfold resolvePlain
  apply h.reference
  · intro name other hother
    exact absurd hother (scope.forAlias.not_aliased_of_usings_nil rfl name other)
  · exact hmentions

end Held

end Work

namespace Atlas

/-- Nothing answers to the name of a reference, once its arguments are resolved. -/
def Misses (a : Atlas) (scope : Scope) : TypeRef → Prop
  | .builtin .. => False
  | .named name args _ => Work.paramFor? scope name args = none ∧
      ∃ uses b, (args.mapM (Work.resolve scope)).exec a = (.ok uses, b) ∧
        b.Lacks scope name args.length

/-- Something answers to the name of a reference, but resolving the reference fails with a
fault that reads as if nothing did. -/
structure Strays (a : Atlas) (scope : Scope) (ref : TypeRef) (fault : Fault) (b : Atlas) : Prop where
  found : ¬a.Misses scope ref
  alike : ∃ requester location, fault = .unresolved ref.text requester location
  failed : (Work.resolve scope ref).exec a = (.error fault, b)

/-- A load that is a part of the work from `a` on fails and leaves `b` behind. -/
def FailsLoading (a : Atlas) (fault : Fault) (b : Atlas) : Prop :=
  a.settings.loadPolicy = .onResolve ∧
    ∃ id start, a.Precedes start ∧ (Work.load id).exec start = (.error fault, b)

/-- If the fault reads like a text, it is from a load. -/
def LoadingOnly (a : Atlas) (s : String) (fault : Fault) (b : Atlas) : Prop :=
  (∃ requester location, fault = .unresolved s requester location) → a.FailsLoading fault b

end Atlas

namespace Work

variable {a b : Atlas} {scope : Scope} {fault : Fault} {array : Option ArrayShape} {name : String}

lemma follow_failsOnly (a : Atlas) (use : Use) : FailsOnly a.Precedes a.FailsLoading (follow use) where
  keeps := by
    apply followWith_keeps
    intro id
    exact load_keeps fun fuel => loadWith_keeps_precedes a fuel id
  fails := by
    intro start fault b hstart hrun
    rcases exec_followWith load use start with ⟨id, honResolve, -, hload⟩ | ⟨-, hdone⟩
    · refine ⟨?_, id, start, hstart, ?_⟩
      · rw [← hstart.settings]
        exact honResolve
      · rw [← hload]
        exact hrun
    · rw [follow, hdone] at hrun
      cases hrun

lemma held_loadingOnly (a : Atlas) (s : String) : Held a.Precedes (a.LoadingOnly s) follow where
  define := define_keeps fun d _ => register_keeps_precedes a d
  malformed := by
    rintro cause b ⟨_, _, hfault⟩
    cases hfault
  found := fun use => (follow_failsOnly a use).imp fun _ _ hloading _ => hloading

/-- A name that reads otherwise keeps to the loads. -/
lemma loadingOnly_of_ne (a : Atlas) {s text : String} (h : text ≠ s) (requester location : String)
    (b : Atlas) : a.LoadingOnly s (.unresolved text requester location) b := by
  rintro ⟨_, _, hfault⟩
  exact absurd (Fault.unresolved.inj hfault).1 h

/-- A reference whose name is answered fails in the ways of its arguments, of the target of
the name and of following it. -/
lemma fails_of_not_misses {P : Atlas → Prop} {F : Fault → Atlas → Prop}
    (hheld : Held P F follow) (halias : ∀ other target, .aliased target ∈ scope.candidates other →
      FailsOnly P F (resolvePlain follow scope.forAlias target))
    (hmentions : ∀ s ∈ TypeRef.mentionsEach args, ∀ b, F (.unresolved s scope.requester scope.location) b)
    (hfound : ¬a.Misses scope (.named name args array)) (ha : P a)
    (hrun : (resolve scope (.named name args array)).exec a = (.error fault, b)) : F fault b := by
  have hargs := hheld.references halias args hmentions
  have htargets := hheld.target (halias name) args.length
  rw [resolve, resolveFinding, resolveWith] at hrun
  cases hparam : paramFor? scope name args with
  | some param =>
    rw [hparam] at hrun
    cases hrun
  | none =>
    rw [hparam] at hrun
    rcases exec_bind_eq_error hrun with hfails | ⟨uses, c, huses, hrun⟩
    · exact hargs.fails a fault b ha hfails
    · have hc := hargs.keeps a ha
      rw [huses] at hc
      rcases exec_bind_eq_error hrun with hfails | ⟨target, e, htarget, hrun⟩
      · exact htargets.fails c fault b hc hfails
      · have he := htargets.keeps c hc
        rw [htarget] at he
        cases target with
        | none =>
          -- Only here the text of the reference itself would be raised.
          rw [resolveEachWith_eq_mapM] at huses
          exact absurd ⟨hparam, uses, c, huses, lacks_of_target? htarget⟩ hfound
        | some target =>
          rcases exec_bind_eq_error hrun with hfails | ⟨_, _, _, hreturn⟩
          · exact (hheld.found _).fails e fault b he hfails
          · cases hreturn

/-- A fault that strays is from the target of an alias or from a load. -/
lemma origin_of_strays
    (h : a.Strays scope (.named name args array) fault b) :
    scope.AliasMentions (TypeRef.named name args array).text ∨ a.FailsLoading fault b := by
  by_cases hmentions : scope.AliasMentions (TypeRef.named name args array).text
  · exact .inl hmentions
  · right
    have hheld := held_loadingOnly a (TypeRef.named name args array).text
    have halias : ∀ other target, .aliased target ∈ scope.candidates other →
        FailsOnly a.Precedes (a.LoadingOnly (TypeRef.named name args array).text)
          (resolvePlain follow scope.forAlias target) := by
      intro other target htarget
      apply hheld.aliasTarget
      intro part hpart
      apply loadingOnly_of_ne
      rintro rfl
      exact hmentions ⟨other, target, htarget, hpart⟩
    -- What an argument mentions is shorter than the whole text.
    have hargs : ∀ part ∈ TypeRef.mentionsEach args, ∀ b,
        a.LoadingOnly (TypeRef.named name args array).text
          (.unresolved part scope.requester scope.location) b := by
      intro part hpart
      exact loadingOnly_of_ne a (TypeRef.ne_text_of_mem_mentionsEach hpart name array) _ _
    exact fails_of_not_misses hheld halias hargs h.found (.refl a) h.failed h.alike

lemma exec_resolve_of_misses {ref : TypeRef} (h : a.Misses scope ref) :
    ∃ b, (resolve scope ref).exec a =
      (.error (.unresolved ref.text scope.requester scope.location), b) := by
  cases ref with
  | builtin type array => cases h
  | named name args array =>
    obtain ⟨hparam, uses, b, huses, hlacks⟩ := h
    have hargs : (resolveEachWith follow (resolvePlain follow scope.forAlias) scope args).exec a =
        (.ok uses, b) := by
      rw [resolveEachWith_eq_mapM]
      exact huses
    refine ⟨b, ?_⟩
    rw [resolve, resolveFinding, resolveWith, hparam]
    dsimp only
    rw [exec_bind, hargs]
    dsimp only
    rw [exec_bind, exec_target?_of_lacks hlacks]
    rfl

variable {short long : TypeRef}

lemma exec_resolveAttribute_of_unresolved {requester location : String}
    (hlong : lengthened? short = some long)
    (h : (resolve scope long).exec a = (.error (.unresolved long.text requester location), b)) :
    (resolveAttribute scope short).exec a = (resolve scope short).exec b := by
  rw [resolve] at h
  rw [resolveAttribute, resolveAttributeFinding, hlong]
  dsimp only
  rw [exec_tryCatch, h]
  dsimp only
  rw [if_pos rfl]
  rfl

lemma exec_resolveAttribute_of_not_unresolved (hlong : lengthened? short = some long)
    (h : ∀ requester location b, (resolve scope long).exec a ≠
      (.error (.unresolved long.text requester location), b)) :
    (resolveAttribute scope short).exec a = (resolve scope long).exec a := by
  rw [resolveAttribute, resolveAttributeFinding, hlong]
  dsimp only
  rw [exec_tryCatch]
  change _ = (resolveFinding follow scope long).exec a
  cases hrun : (resolveFinding follow scope long).exec a with
  | mk r b =>
    cases r with
    | ok use => rfl
    | error fault =>
      cases fault with
      | unresolved reference requester location =>
        dsimp only
        split
        · rename_i htext
          subst htext
          exact absurd hrun (h requester location b)
        · rfl
      | _ => rfl

end Work

namespace Atlas

/-- The name of an attribute is tried as written where nothing answers to the longer one.
Otherwise the longer one decides, be it with a use or a fault, unless its fault strays; where
following a use loads nothing, only an alias that mentions the longer one makes it stray. -/
theorem resolveAttribute_falls_back (a : Atlas) (scope : Scope) (name : String)
    (args : List TypeRef) (array : Option ArrayShape) (short long : TypeRef)
    (hshort : short = .named name args array)
    (hlong : long = .named (name ++ "Attribute") args array)
    (hending : ¬"Attribute".toList <:+ name.toList) :
    (a.Misses scope long → (Work.resolveAttribute scope short).exec a =
      (Work.resolve scope short).exec ((Work.resolve scope long).exec a).2) ∧
    (¬a.Misses scope long → (∀ fault b, ¬a.Strays scope long fault b) →
      (Work.resolveAttribute scope short).exec a = (Work.resolve scope long).exec a) ∧
    (∀ fault b, a.Strays scope long fault b →
      (Work.resolveAttribute scope short).exec a = (Work.resolve scope short).exec b ∧
        (scope.AliasMentions long.text ∨ a.FailsLoading fault b)) ∧
    (a.settings.loadPolicy = .lazy → ¬scope.AliasMentions long.text →
      ∀ fault b, ¬a.Strays scope long fault b) := by
  have hlengthened : Work.lengthened? short = some long := by
    have hends : (Work.attributeEnding.toList.isSuffixOf name.toList) = false := by
      rw [← Bool.not_eq_true, List.isSuffixOf_iff_suffix]
      exact hending
    rw [hshort, hlong, Work.lengthened?, hends]
    rfl
  have horigin : ∀ fault b, a.Strays scope long fault b →
      scope.AliasMentions long.text ∨ a.FailsLoading fault b := by
    intro fault b hstrays
    rw [hlong] at hstrays ⊢
    exact Work.origin_of_strays hstrays
  refine ⟨?_, ?_, ?_, ?_⟩
  · intro hmisses
    obtain ⟨b, hrun⟩ := Work.exec_resolve_of_misses hmisses
    rw [hrun]
    exact Work.exec_resolveAttribute_of_unresolved hlengthened hrun
  · intro hfound hstays
    apply Work.exec_resolveAttribute_of_not_unresolved hlengthened
    intro requester location b hrun
    exact hstays _ b ⟨hfound, ⟨requester, location, rfl⟩, hrun⟩
  · intro fault b hstrays
    obtain ⟨requester, location, rfl⟩ := hstrays.alike
    have hfalls := Work.exec_resolveAttribute_of_unresolved hlengthened hstrays.failed
    exact ⟨hfalls, horigin _ b hstrays⟩
  · intro hlazy hmentions fault b hstrays
    obtain ⟨honResolve, -⟩ := (horigin fault b hstrays).resolve_left hmentions
    rw [hlazy] at honResolve
    cases honResolve

/-- An attribute whose base, outside its namespace, uses the attribute without seeing it. -/
def seals : Source.Document := .read "seals.cs"
  "namespace Office \x7b class Seal \x7b \x7d class SealAttribute : Stamp \x7b \x7d \x7d class Stamp \x7b SealAttribute Mark \x7b get; \x7d \x7d"

def sealsAtlas : Atlas :=
  ({ settings := { loadPolicy := .onResolve } } : Atlas).afterAll [.addDocument seals]

def office : Scope := { requester := "Office.Clerk", location := "seals.cs", ns := "Office" }

/-- The load of the base fails with the text of the attribute's name, and the name of the
attribute leads to the other class. -/
lemma outcomes_seals :
    (match ((Work.resolve office (.named "SealAttribute" [] none)).exec sealsAtlas).1 with
      | .ok _ => none
      | .error fault => some fault) =
        some (Fault.unresolved "SealAttribute" "Stamp" "seals.cs") ∧
    ((Work.resolveAttribute office (.named "Seal" [] none)).exec sealsAtlas).1.toOption.bind
      Use.target? = some 0 := by
  decide +kernel

lemma strays_seals : ∃ b, sealsAtlas.Strays office (.named "SealAttribute" [] none)
    (.unresolved "SealAttribute" "Stamp" "seals.cs") b := by
  obtain ⟨hfault, -⟩ := outcomes_seals
  cases hrun : (Work.resolve office (.named "SealAttribute" [] none)).exec sealsAtlas with
  | mk r b =>
    rw [hrun] at hfault
    cases r with
    | ok use => cases hfault
    | error fault =>
      cases hfault
      refine ⟨b, ?_, ⟨_, _, rfl⟩, hrun⟩
      intro hmisses
      obtain ⟨c, hmissed⟩ := Work.exec_resolve_of_misses hmisses
      rw [hrun] at hmissed
      have hrequester := (Fault.unresolved.inj (Except.error.inj (Prod.mk.inj hmissed).1)).2.1
      exact absurd hrequester (by decide)

/-- There the other class is returned instead of the fault. -/
theorem attribute_passed_over :
    ¬sealsAtlas.Misses office (.named "SealAttribute" [] none) ∧
      ∃ b use c, (Work.resolve office (.named "SealAttribute" [] none)).exec sealsAtlas =
          (.error (.unresolved "SealAttribute" "Stamp" "seals.cs"), b) ∧
        (Work.resolveAttribute office (.named "Seal" [] none)).exec sealsAtlas = (.ok use, c) ∧
        use.target? = some 0 := by
  obtain ⟨b, hstrays⟩ := strays_seals
  obtain ⟨-, hused⟩ := outcomes_seals
  cases hrun : (Work.resolveAttribute office (.named "Seal" [] none)).exec sealsAtlas with
  | mk r c =>
    rw [hrun] at hused
    cases r with
    | error fault => cases hused
    | ok use => exact ⟨hstrays.found, b, use, c, hstrays.failed, rfl, hused⟩

/-- No alias is in sight, so the fault is from a load. -/
theorem resolveAttribute_falls_back_seals :
    ¬"Attribute".toList <:+ "Seal".toList ∧
      ∃ b, sealsAtlas.Strays office (.named "SealAttribute" [] none)
          (.unresolved "SealAttribute" "Stamp" "seals.cs") b ∧
        (Work.resolveAttribute office (.named "Seal" [] none)).exec sealsAtlas =
          (Work.resolve office (.named "Seal" [] none)).exec b ∧
        sealsAtlas.FailsLoading (.unresolved "SealAttribute" "Stamp" "seals.cs") b := by
  have hending : ¬"Attribute".toList <:+ "Seal".toList := by decide
  obtain ⟨b, hstrays⟩ := strays_seals
  obtain ⟨-, -, hfalls, -⟩ := resolveAttribute_falls_back sealsAtlas office "Seal" [] none
    (.named "Seal" [] none) (.named "SealAttribute" [] none) rfl rfl hending
  obtain ⟨hrun, horigin⟩ := hfalls _ b hstrays
  refine ⟨hending, b, hstrays, hrun, ?_⟩
  apply horigin.resolve_left
  rintro ⟨name, target, htarget, -⟩
  exact Scope.not_aliased_of_usings_nil rfl name target htarget

end Atlas

end TypeAtlas
