import Mathlib.Tactic.Tauto
import TypeAtlas.Proofs.Chains
import TypeAtlas.Proofs.Tracking

/-!
Everything that finds out a shape tracks itself. Resolution and the two loaders read the
graph through lookups and simple names only and change it through definitions of libraries
at hand, so under a regime that is steady in these respects two runs stay in step.
-/

namespace TypeAtlas

def GenericParam.uses (param : GenericParam) : List Use := param.constraints

def Attribute.uses (a : Attribute) : List Use := [a.use]

def Property.uses (property : Property) : List Use :=
  property.type :: property.attributes.flatMap Attribute.uses

def Method.uses (method : Method) : List Use :=
  method.returns :: (method.params.map (·.type) ++ method.generics.flatMap GenericParam.uses ++
    method.attributes.flatMap Attribute.uses)

def Member.uses : Member → List Use
  | .property p => p.uses
  | .method m => m.uses

def Shape.uses (shape : Shape) : List Use :=
  shape.generics.flatMap GenericParam.uses ++ shape.bases ++ shape.members.flatMap Member.uses ++
    shape.attributes.flatMap Attribute.uses

namespace Work

variable {ρ : Regime}

/-- The shape of a declaration in source, found out as a whole. -/
def writtenShape (found : Use → Work Unit) (document : Source.Document) (scope : Scope) (kind : Kind)
    (tree : Source.DeclTree) : Work Shape := do
  if kind = .enumType then
    return { attributes := ← writtenAttributes found document scope tree.attributes }
  let scope := { scope with typeParams := tree.typeParams }
  let constraints ← writtenConstraints found document scope tree.constraints
  let bases ← tree.bases.mapM (writtenType found document scope)
  let members ← tree.members.mapM (writtenMember found document scope)
  let attributes ← writtenAttributes found document scope tree.attributes
  return { generics := constrained tree.typeParams constraints, bases, members, attributes }

def sourceShape (found : Use → Work Unit) (d : Declaration) : Work Shape :=
  match d.handle.node? with
  | some (.ofType tree) => writtenShape found d.handle.place.1 (.ofDeclaration d) d.kind tree
  | _ => throw (.malformed (.lostSyntax d.fullName d.location))

/-- The shape of a definition in a module, found out as a whole. -/
def storedShape (found : Use → Work Unit) (library : Library) (scope : Scope) (kind : Kind) (row : Nat) :
    Work Shape := do
  if kind = .enumType then
    return { attributes := ← storedAttributes found library scope (.type row) }
  else
    let m := library.module
    let names ← check (m.genericNames (.type row))
    let scope := { scope with typeParams := names }
    let generics ← storedGenerics found library scope (.type row) names
    let bases ← check (basesOf m row)
    let bases ← bases.mapM (tokenFinding found library scope)
    let methods ← check (m.methodsOf row)
    let members ← methods.mapM (storedMember found library scope (accessedBy m row).reverse)
    let attributes ← storedAttributes found library scope (.type row)
    return { generics, bases, members := members.filterMap id, attributes }

/-- The shape of a declaration, found out before any part of it is published. -/
def shapeOf (found : Use → Work Unit) (d : Declaration) : Work Shape :=
  match d.provenance with
  | .source => sourceShape found d
  | .module m row =>
    let scope := { requester := d.fullName, location := d.location }
    storedShape found ⟨m, d.location⟩ scope d.kind row

/-- What is known of a use is known of its arguments, and of what is made of known ones. -/
structure Regime.Inherits (ρ : Regime) : Prop where
  builtin : ∀ a type array, ρ.known a (.builtin type array)
  param : ∀ a name position owner array, ρ.known a (.param name position owner array)
  args : ∀ a u, ρ.known a u → ∀ v ∈ u.args, ρ.known a v
  withArray : ∀ a u array, ρ.known a u → ρ.known a (u.withArray array)
  withArgs : ∀ a u args, ρ.known a u → (∀ v ∈ args, ρ.known a v) → ρ.known a (u.withArgs args)

lemma Regime.Inherits.of_known (h : ∀ a u, ρ.known a u) : ρ.Inherits :=
  ⟨fun a _ _ => h a _, fun a _ _ _ _ => h a _, fun a _ _ _ _ => h a _, fun a _ _ _ => h a _, fun a _ _ _ _ => h a _⟩

/-- Atlases in step give the same answers. -/
structure Regime.Answers (ρ : Regime) : Prop where
  lookup : ∀ {a a'}, ρ.inStep a a' → ∀ fullName arity location,
    a.graph.lookup fullName arity location = a'.graph.lookup fullName arity location
  nameOf : ∀ {a a'}, ρ.inStep a a' → a.graph.nameOf = a'.graph.nameOf
  libraries : ∀ {a a'}, ρ.inStep a a' → a.libraries = a'.libraries
  skips : ∀ {a a'}, ρ.inStep a a' →
    a.settings.skipCompilerAttributes = a'.settings.skipCompilerAttributes

/-- One run gives the answers of itself. -/
lemma Regime.Answers.of_eq (h : ∀ a a', ρ.inStep a a' → a = a') : ρ.Answers where
  lookup hstep _ _ _ := by rw [h _ _ hstep]
  nameOf hstep := by rw [h _ _ hstep]
  libraries hstep := by rw [h _ _ hstep]
  skips hstep := by rw [h _ _ hstep]

/-- What a regime must leave alone so that two runs find out the same. The libraries `atHand`
are those whose definitions may come up. -/
structure Regime.Steady (ρ : Regime) (atHand : Library → Prop) : Prop extends ρ.Inherits, ρ.Answers where
  heldLookup : ∀ {a a'}, ρ.inStep a a' → ∀ {fullName arity location id},
    a.graph.lookup fullName arity location = some id → ρ.held a id
  present : ∀ {a a'}, ρ.inStep a a' → ∀ library ∈ a.libraries, atHand library
  define : ∀ library row, atHand library →
    TracksTo ρ (fun _ => True) (fun id b => ρ.held b id) (define library row) (define library row)
  held : ∀ a u, ρ.known a u → ∀ id, u.target? = some id → ρ.held a id
  malformed : ∀ cause, ρ.faults (.malformed cause) := by exact fun _ => trivial
  unresolved : ∀ reference requester location, ρ.faults (.unresolved reference requester location) := by
    exact fun _ _ _ => trivial
  /-- A chain of rows without end is a fault that may occur, or there is none. -/
  ends : ∀ library, atHand library → ρ.faults .endless ∨ library.module.Acyclic := by
    exact fun _ _ => .inl trivial

lemma Regime.Steady.check {atHand : Library → Prop} {α : Type} {given : List Use}
    (hs : ρ.Steady atHand) (r : Except Malformed α) : Tracks ρ given noUses (Work.check r) (Work.check r) :=
  Tracks.check hs.malformed r

/-- A use that can be told of: its declaration is held and its arguments are known. -/
def Regime.tells (ρ : Regime) (u : Use) (a : Atlas) : Prop :=
  (∀ id, u.target? = some id → ρ.held a id) ∧ ρ.knowsAll u.args a

/-- Being told of a use makes it known. -/
def Followed (ρ : Regime) (found found' : Use → Work Unit) : Prop :=
  ∀ u, TracksTo ρ (ρ.tells u) (fun _ b => ρ.known b u) (found u) (found' u)

lemma Followed.told {found found' : Use → Work Unit} {before : Atlas → Prop} {use : Use}
    (hfound : Followed ρ found found') (hbefore : ∀ a, before a → ρ.tells use a) :
    TracksTo ρ before (fun u => ρ.knowsAll [u]) (do found use; return use)
      (do found' use; return use) := by
  refine TracksTo.bind [] ((hfound use).imp hbefore) (fun _ _ u hu => by cases hu) fun _ => ?_
  refine TracksTo.pure ?_
  rintro a ⟨hknown, -⟩ u hu
  obtain rfl := List.mem_singleton.mp hu
  exact hknown

/-- What is known of what a name turned out to be. -/
def Regime.meets (ρ : Regime) (a : Atlas) : Target → Prop
  | .declaration id => ρ.held a id
  | .builtin _ => True
  | .aliased use => ρ.known a use

end Work

/-- The first candidate depends on what lookups answer. -/
lemma Graph.match?_congr {g g' : Graph} {location : String} {arity : Nat}
    (h : ∀ fullName, g.lookup fullName arity (some location) = g'.lookup fullName arity (some location))
    (candidates : List Candidate) :
    g.match? location arity candidates = g'.match? location arity candidates := by
  induction candidates with
  | nil => rfl
  | cons candidate rest ih =>
    cases candidate with
    | name fullName => simp only [Graph.match?, h, ih]
    | aliased target => simp only [Graph.match?, ih]

namespace Work

variable {ρ : Regime} {atHand : Library → Prop} {given : List Use}
  {found found' : Use → Work Unit} {inAlias inAlias' : TypeRef → Work Use}
  {token token' : Metadata.Token → Work Use} {a : Atlas}

lemma paramFor?_eq_some {scope : Scope} {name : String} {args : List TypeRef} {use : Use}
    (h : paramFor? scope name args = some use) :
    ∃ position owner, use = .param name position owner none := by
  unfold paramFor? Scope.param? at h
  split at h
  · split at h
    · exact ⟨_, _, (Option.some.inj h).symm⟩
    · obtain ⟨position, -, rfl⟩ := Option.map_eq_some_iff.mp h
      exact ⟨position, .type, rfl⟩
  · cases h

lemma tells_builtin (type : Builtin) (array : Option ArrayShape) (a : Atlas) :
    ρ.tells (.builtin type array) a := by
  constructor
  · intro id hid
    cases hid
  · intro u hu
    cases hu

/-- A declaration that is held can be used without arguments. -/
lemma tells_declared {id : DeclId} (hheld : ρ.held a id) :
    ρ.tells (.declared id [] none) a := by
  refine ⟨fun i hi => ?_, fun u hu => by cases hu⟩
  cases hi
  exact hheld

lemma uses_constrain (name : String) (use : Use) (params : List GenericParam) :
    (GenericParam.constrain name use params).flatMap GenericParam.uses ⊆
      use :: params.flatMap GenericParam.uses := by
  induction params with
  | nil => simp [GenericParam.constrain]
  | cons param rest ih =>
    intro u hu
    by_cases hname : param.name = name
    · simp [GenericParam.constrain, hname, GenericParam.uses] at hu ⊢
      tauto
    · simp only [GenericParam.constrain, hname, if_false, List.flatMap_cons, List.mem_append] at hu
      have := @ih u
      simp only [List.mem_cons, List.flatMap_cons, List.mem_append] at this ⊢
      tauto

/-- Constraints end up on parameters and nowhere else. -/
lemma uses_constrained (names : List String) (constraints : List (String × Use)) :
    (constrained names constraints).flatMap GenericParam.uses ⊆ constraints.map (·.2) := by
  have hfold (params : List GenericParam) :
      (constraints.foldl (fun params entry => GenericParam.constrain entry.1 entry.2 params)
        params).flatMap GenericParam.uses ⊆
        constraints.map (·.2) ++ params.flatMap GenericParam.uses := by
    induction constraints generalizing params with
    | nil => simp
    | cons constraint rest ih =>
      intro u hu
      have hrest := ih _ hu
      have hfirst := @uses_constrain constraint.1 constraint.2 params u
      simp only [List.mem_append, List.map_cons, List.mem_cons] at hrest hfirst ⊢
      tauto
  intro u hu
  have hu := hfold _ hu
  have hempty : (names.map ({ name := · } : String → GenericParam)).flatMap GenericParam.uses = [] := by
    simp [GenericParam.uses]
  simpa [hempty] using hu

lemma flatMap_filterMap_id {α : Type} (uses : α → List Use) (parts : List (Option α)) :
    (parts.filterMap id).flatMap uses = parts.flatMap (·.toList.flatMap uses) := by
  induction parts with
  | nil => rfl
  | cons part parts ih =>
    cases part with
    | none => exact ih
    | some x =>
      simp only [List.filterMap_cons, List.flatMap_cons, Option.toList_some, List.flatMap_nil,
        List.append_nil, id, ← ih]

lemma uses_zipWith (names : List String) (constraints : List (List Use)) :
    (names.zipWith (fun name constraints => (⟨name, constraints⟩ : GenericParam)) constraints).flatMap
      GenericParam.uses ⊆ constraints.flatMap id := by
  induction names generalizing constraints with
  | nil => simp
  | cons name names ih =>
    cases constraints with
    | nil => simp
    | cons first rest =>
      intro u hu
      have hrest := @ih rest u
      simp only [List.zipWith_cons_cons, List.flatMap_cons, List.mem_append, GenericParam.uses,
        id] at hu hrest ⊢
      tauto

section Steady

variable (hs : ρ.Steady atHand)

include hs

lemma defineFirst_tracks (arity : Nat) (names : List String) :
    TracksTo ρ (fun _ => True) (fun id b => ∀ i ∈ id, ρ.held b i) (defineFirst arity names)
      (defineFirst arity names) := by
  refine TracksTo.read fun a a' hstep => ?_
  rw [← hs.libraries hstep]
  cases hfirst : names.findSome? (Library.first? a.libraries arity) with
  | none => exact TracksTo.pure fun _ _ i hi => by cases hi
  | some found =>
    obtain ⟨library, row⟩ := found
    have hnear : atHand library := by
      obtain ⟨name, -, hname⟩ := List.exists_of_findSome?_eq_some hfirst
      obtain ⟨other, hother, hdefined⟩ := List.exists_of_findSome?_eq_some hname
      obtain ⟨_, _, heq⟩ := Option.map_eq_some_iff.mp hdefined
      cases heq
      exact hs.present hstep _ hother
    refine (hs.define library row hnear).chain fun id => TracksTo.pure fun b hheld i hi => ?_
    cases hi
    exact hheld

/-- A lookup of candidates leads to a declaration that is held. -/
lemma held_of_match? {a' : Atlas} (hstep : ρ.inStep a a') {location : String} {arity : Nat} {candidates : List Candidate} {id : DeclId}
    (h : a.graph.match? location arity candidates = some (.inl id)) : ρ.held a id := by
  induction candidates with
  | nil => cases h
  | cons candidate rest ih =>
    cases candidate with
    | name fullName =>
      rw [Graph.match?] at h
      split at h
      · rename_i found hfound
        obtain rfl := Sum.inl.inj (Option.some.inj h)
        exact hs.heldLookup hstep hfound
      · exact ih h
    | aliased target =>
      rw [Graph.match?] at h
      split at h
      · cases h
      · exact ih h

lemma target?_tracks (halias : ∀ ref, Tracks ρ [] (fun u => [u]) (inAlias ref) (inAlias' ref))
    (scope : Scope) (name : String) (arity : Nat) :
    TracksTo ρ (fun _ => True) (fun target b => ∀ t ∈ target, ρ.meets b t)
      (target? inAlias scope name arity) (target? inAlias' scope name arity) := by
  refine TracksTo.readGraph fun a a' hstep => ?_
  have hcongr := Graph.match?_congr
    (fun fullName => hs.lookup hstep fullName arity (some scope.location)) (scope.candidates name)
  rw [← hcongr]
  cases hmatch : a.graph.match? scope.location arity (scope.candidates name) with
  | some found =>
    cases found with
    | inl id =>
      refine TracksTo.pure ?_
      rintro b ⟨rfl, -⟩ t ht
      cases ht
      exact held_of_match? hs hstep hmatch
    | inr ref =>
      have hinAlias := (halias ref).imp fun b (_ : True) u hu => by cases hu
      refine hinAlias.chain fun use => TracksTo.pure fun b hknown t ht => ?_
      cases ht
      exact hknown use List.mem_cons_self
  | none =>
    dsimp only
    cases Builtin.first? arity (Candidate.names (scope.candidates name)) with
    | some type =>
      refine TracksTo.pure fun b _ t ht => ?_
      cases ht
      trivial
    | none =>
      refine (defineFirst_tracks hs arity _).chain fun id => TracksTo.pure fun b hheld t ht => ?_
      obtain ⟨i, hi, rfl⟩ := Option.map_eq_some_iff.mp ht
      exact hheld i hi

/-- A use of what was met can be told of when its arguments are known. -/
lemma tells_toUse {target : Target} {uses : List Use} (array : Option ArrayShape)
    (htarget : ρ.meets a target) (huses : ρ.knowsAll uses a) :
    ρ.tells (target.toUse uses array) a := by
  cases target with
  | declaration id =>
    refine ⟨fun i hi => ?_, huses⟩
    cases hi
    exact htarget
  | builtin type => exact tells_builtin type array a
  | aliased use =>
    have hknown := hs.withArray a use (ArrayShape.join array use.array) htarget
    exact ⟨hs.held a _ hknown, hs.args a _ hknown⟩

lemma numbered_tracks (scope : Scope) (names : List String) (owner : ParamOwner) (number : Nat) :
    Tracks ρ given (fun u => [u]) (numbered scope names owner number)
      (numbered scope names owner number) := by
  unfold numbered
  cases names[number]? with
  | none => exact Tracks.throw (hs.malformed _)
  | some name =>
    exact Tracks.pure fun a _ u hu => by
      obtain rfl := List.mem_singleton.mp hu
      exact hs.param ..

lemma external_tracks (scope : Scope) (stored assembly : String) :
    TracksTo ρ (fun _ => True) (fun use b => ρ.tells use b) (external scope stored assembly)
      (external scope stored assembly) := by
  unfold external
  dsimp only
  cases Builtin.first? _ [_] with
  | some type => exact TracksTo.pure fun b _ => tells_builtin type none b
  | none =>
    refine TracksTo.read fun a a' hstep => ?_
    rw [← hs.libraries hstep]
    simp only [← hs.lookup hstep]
    cases hlookup : a.graph.lookup _ _ _ with
    | some id =>
      refine TracksTo.pure ?_
      rintro b ⟨rfl, -⟩
      exact tells_declared (hs.heldLookup hstep hlookup)
    | none =>
      dsimp only
      cases hhome : (a.libraries.find? (·.module.assembly == assembly)).bind _ with
      | some home =>
        obtain ⟨library, row⟩ := home
        have hnear : atHand library := by
          obtain ⟨other, hother, hdefined⟩ := Option.bind_eq_some_iff.mp hhome
          obtain ⟨_, _, heq⟩ := Option.map_eq_some_iff.mp hdefined
          cases heq
          exact hs.present hstep _ (List.mem_of_find?_eq_some hother)
        exact (hs.define library row hnear).chain fun id => TracksTo.pure fun _ => tells_declared
      | none =>
        refine (defineFirst_tracks hs _ _).chain fun id => ?_
        cases id with
        | some id => exact TracksTo.pure fun b hheld => tells_declared (hheld id rfl)
        | none => exact TracksTo.throw (hs.unresolved ..)

lemma referenceAssembly_faults {library : Library} (hlibrary : atHand library)
    {row : Nat} {fault : Fault} (h : library.module.referenceAssembly row = .error fault) :
    ρ.faults fault := by
  rcases Metadata.Module.referenceAssembly_eq_error h with ⟨cause, rfl⟩ | ⟨rfl, hcyclic⟩
  · exact hs.malformed cause
  · rcases hs.ends library hlibrary with hfault | hacyclic
    · exact hfault
    · exact absurd hacyclic hcyclic

lemma isLeftOut_tracks (library : Library) (type : Metadata.Token) :
    Tracks ρ given noUses (isLeftOut library type) (isLeftOut library type) := by
  refine Tracks.read fun a a' hstep => ?_
  rw [hs.skips hstep]
  split
  · exact (hs.check _).bindPlain fun name => Tracks.pureSub (by simp [noUses])
  · exact Tracks.pureSub (by simp [noUses])

end Steady

mutual

lemma signatureWith_tracks (hs : ρ.Steady atHand) (m : Metadata.Module) (scope : Scope) : ∀ type : Metadata.SigType,
      (∀ t ∈ type.tokens, Tracks ρ [] (fun u => [u]) (token t) (token' t)) →
      Tracks ρ [] (fun u => [u]) (signatureWith token m scope type) (signatureWith token' m scope type)
  | .builtin type, _ => by
    simp only [signatureWith]
    exact Tracks.pure fun a _ u hu => by
      obtain rfl := List.mem_singleton.mp hu
      exact hs.builtin ..
  | .classType t, htoken | .valueType t, htoken => by
    simp only [signatureWith]
    exact htoken t (by simp [Metadata.SigType.tokens])
  | .inst generic isValue args, htoken => by
    rw [Metadata.SigType.tokens, List.forall_mem_cons] at htoken
    simp only [signatureWith]
    refine (hs.check _).bindPlain fun nullable => ?_
    refine (signatureEach_tracks hs m scope args htoken.2).bind fun uses => ?_
    have hplain : Tracks ρ (uses ++ []) (fun u => [u])
        (do return (← token generic).withArgs uses) (do return (← token' generic).withArgs uses) := by
      refine htoken.1.ofNone.bind fun use => Tracks.pure fun a hgiven u hu => ?_
      obtain rfl := List.mem_singleton.mp hu
      refine hs.withArgs a use uses (hgiven use (by simp)) fun v hv => hgiven v (by simp [hv])
    split
    · exact Tracks.pureSub (by simp)
    · exact hplain
  | .typeParam number, _ => by
    simp only [signatureWith]
    exact numbered_tracks hs scope _ _ number
  | .methodParam number, _ => by
    simp only [signatureWith]
    exact numbered_tracks hs scope _ _ number
  | .vector element, htoken | .array element _, htoken => by
    rw [Metadata.SigType.tokens] at htoken
    simp only [signatureWith]
    refine (signatureWith_tracks hs m scope element htoken).bind fun use => ?_
    exact Tracks.pure fun a hgiven u hu => by
      obtain rfl := List.mem_singleton.mp hu
      exact hs.withArray a use _ (hgiven use (by simp))
  | .byRef inner, htoken | .pointer inner, htoken => by
    rw [Metadata.SigType.tokens] at htoken
    simp only [signatureWith]
    exact signatureWith_tracks hs m scope inner htoken

lemma signatureEach_tracks (hs : ρ.Steady atHand) (m : Metadata.Module) (scope : Scope) : ∀ types : List Metadata.SigType,
      (∀ t ∈ Metadata.SigType.tokensEach types, Tracks ρ [] (fun u => [u]) (token t) (token' t)) →
      Tracks ρ [] id (signatureEach token m scope types) (signatureEach token' m scope types)
  | [], _ => by
    simp only [signatureEach]
    exact Tracks.pureSub (by simp)
  | type :: types, htoken => by
    rw [Metadata.SigType.tokensEach, List.forall_mem_append] at htoken
    simp only [signatureEach]
    refine (signatureWith_tracks hs m scope type htoken.1).bind fun use => ?_
    refine (signatureEach_tracks hs m scope types htoken.2).ofNone.bind fun uses => ?_
    exact Tracks.pureSub (by simp)

end

mutual

lemma resolveWith_tracks (hs : ρ.Steady atHand) (hfound : Followed ρ found found')
    (halias : ∀ ref, Tracks ρ [] (fun u => [u]) (inAlias ref) (inAlias' ref)) (scope : Scope) :
    ∀ ref : TypeRef, Tracks ρ [] (fun u => [u]) (resolveWith found inAlias scope ref)
    (resolveWith found' inAlias' scope ref)
  | .builtin type array => by
    simp only [resolveWith]
    exact Tracks.pure fun a _ u hu => by simp_all [hs.builtin]
  | .named name args array => by
    simp only [resolveWith]
    cases hparam : paramFor? scope name args with
    | some param =>
      obtain ⟨_, _, rfl⟩ := paramFor?_eq_some hparam
      exact Tracks.pure fun a _ u hu => by
        obtain rfl := List.mem_singleton.mp hu
        exact hs.param ..
    | none =>
      refine (resolveEachWith_tracks hs hfound halias scope args).bind fun uses => ?_
      have htarget := (target?_tracks hs halias scope name args.length).imp
        fun b (_ : ρ.knowsAll (uses ++ []) b) => trivial
      refine TracksTo.bind (uses ++ []) htarget (fun _ ha => ha) fun target => ?_
      cases target with
      | none => exact TracksTo.throw (hs.unresolved ..)
      | some target =>
        refine hfound.told ?_
        rintro a ⟨hmeets, huses⟩
        refine tells_toUse hs array (hmeets target rfl) fun u hu => ?_
        exact huses u (List.mem_append_left [] hu)

lemma resolveEachWith_tracks (hs : ρ.Steady atHand) (hfound : Followed ρ found found')
    (halias : ∀ ref, Tracks ρ [] (fun u => [u]) (inAlias ref) (inAlias' ref)) (scope : Scope) :
    ∀ refs : List TypeRef,
    Tracks ρ [] id (resolveEachWith found inAlias scope refs) (resolveEachWith found' inAlias' scope refs)
  | [] => by
    simp only [resolveEachWith]
    exact Tracks.pureSub (by simp)
  | ref :: refs => by
    simp only [resolveEachWith]
    refine (resolveWith_tracks hs hfound halias scope ref).bind fun use => ?_
    refine (resolveEachWith_tracks hs hfound halias scope refs).ofNone.bind fun uses => ?_
    exact Tracks.pureSub (by simp)

end

section Found

variable (hs : ρ.Steady atHand) (hfound : Followed ρ found found')

include hs hfound

lemma resolvePlain_tracks (scope : Scope) (ref : TypeRef) :
    Tracks ρ given (fun u => [u]) (resolvePlain found scope ref) (resolvePlain found' scope ref) :=
  (resolveWith_tracks hs hfound (fun _ => Tracks.throw (hs.unresolved ..)) scope ref).ofNone

lemma resolveFinding_tracks (scope : Scope) (ref : TypeRef) :
    Tracks ρ given (fun u => [u]) (resolveFinding found scope ref) (resolveFinding found' scope ref) :=
  (resolveWith_tracks hs hfound (resolvePlain_tracks hs hfound scope.forAlias) scope ref).ofNone

lemma resolveAttributeFinding_tracks (scope : Scope) (ref : TypeRef) :
    Tracks ρ given (fun u => [u]) (resolveAttributeFinding found scope ref)
      (resolveAttributeFinding found' scope ref) := by
  unfold resolveAttributeFinding
  cases lengthened? ref with
  | none => exact resolveFinding_tracks hs hfound scope ref
  | some long =>
    refine Tracks.tryCatch (resolveFinding_tracks hs hfound scope long) fun fault hfault => ?_
    split
    · split
      · exact resolveFinding_tracks hs hfound scope ref
      · exact Tracks.throw hfault
    · exact Tracks.throw hfault

section Written

variable (document : Source.Document)

lemma writtenType_tracks (scope : Scope) (tree : Source.TypeTree) :
    Tracks ρ given (fun u => [u]) (writtenType found document scope tree)
      (writtenType found' document scope tree) :=
  (hs.check _).bindPlain (resolveFinding_tracks hs hfound scope)

lemma writtenConstraints_tracks (scope : Scope) (clauses : List Source.ConstraintTree) :
    Tracks ρ given (·.map (·.2)) (writtenConstraints found document scope clauses)
      (writtenConstraints found' document scope clauses) := by
  have hclause (clause : Source.ConstraintTree) :
      Tracks ρ given (·.flatMap fun found => [found.2])
        (clause.types.mapM fun tree =>
          return (clause.param, ← writtenType found document scope tree))
        (clause.types.mapM fun tree =>
          return (clause.param, ← writtenType found' document scope tree)) := by
    refine Tracks.mapM fun tree _ => ?_
    exact (writtenType_tracks hs hfound document scope tree).bind fun use => Tracks.pureSub (by simp)
  refine (Tracks.mapM fun clause _ => hclause clause).bind fun found => Tracks.pureSub ?_
  intro u hu
  simp only [List.mem_map, List.mem_flatten] at hu
  obtain ⟨entry, ⟨entries, hentries, hentry⟩, rfl⟩ := hu
  simp only [List.mem_append, List.mem_flatMap, List.mem_singleton]
  exact .inl ⟨entries, hentries, entry, hentry, rfl⟩

lemma writtenAttributes_tracks (scope : Scope) (lists : List Source.AttributeList) :
    Tracks ρ given (·.flatMap Attribute.uses) (writtenAttributes found document scope lists)
      (writtenAttributes found' document scope lists) := by
  refine Tracks.mapM fun tree _ => ?_
  refine (hs.check _).bindPlain fun ref => ?_
  refine (resolveAttributeFinding_tracks hs hfound scope ref).bind fun use => ?_
  refine Tracks.readGraph fun a a' hstep => ?_
  rw [hs.nameOf hstep]
  exact Tracks.pureSub (by simp [Attribute.uses])

lemma writtenProperty_tracks (scope : Scope) (tree : Source.PropertyTree) :
    Tracks ρ given Property.uses (writtenProperty found document scope tree)
      (writtenProperty found' document scope tree) := by
  refine (writtenType_tracks hs hfound document scope tree.type).bind fun type => ?_
  refine (writtenAttributes_tracks hs hfound document scope tree.attributes).bind fun attributes => ?_
  refine Tracks.pureSub ?_
  intro u hu
  simp only [Property.uses, List.mem_cons, List.mem_append, List.not_mem_nil, or_false] at hu ⊢
  tauto

lemma writtenMethod_tracks (scope : Scope) (tree : Source.MethodTree) :
    Tracks ρ given Method.uses (writtenMethod found document scope tree)
      (writtenMethod found' document scope tree) := by
  have hparam (scope : Scope) (entry : String × Source.TypeTree) :
      Tracks ρ given (fun param : Parameter => [param.type])
        (do return { name := entry.1, type := ← writtenType found document scope entry.2 })
        (do return { name := entry.1, type := ← writtenType found' document scope entry.2 }) :=
    (writtenType_tracks hs hfound document scope entry.2).bind fun type => Tracks.pureSub (by simp)
  refine (writtenType_tracks hs hfound document _ tree.returns).bind fun returns => ?_
  refine (hs.check _).bindPlain fun typed => ?_
  refine ((Tracks.mapM fun entry _ => hparam _ entry).weaken (List.subset_append_right _ _)).bind
    fun params => ?_
  refine (writtenConstraints_tracks hs hfound document _ tree.constraints).bind fun constraints => ?_
  refine (writtenAttributes_tracks hs hfound document _ tree.attributes).bind fun attributes => ?_
  refine Tracks.pureSub ?_
  intro u hu
  have hgenerics := @uses_constrained tree.typeParams constraints u
  simp only [Method.uses, List.mem_cons, List.mem_append, List.mem_flatMap, List.mem_map,
    List.not_mem_nil, or_false] at hu hgenerics ⊢
  rcases hu with rfl | (⟨param, hparam, rfl⟩ | hu) | hu
  · tauto
  · exact .inr (.inr (.inl ⟨param, hparam, rfl⟩))
  · exact .inr (.inl (hgenerics hu))
  · exact .inl hu

lemma writtenMember_tracks (scope : Scope) (tree : Source.MemberTree) :
    Tracks ρ given Member.uses (writtenMember found document scope tree)
      (writtenMember found' document scope tree) := by
  cases tree with
  | property tree =>
    exact (writtenProperty_tracks hs hfound document scope tree).bind fun p =>
      Tracks.pureSub (by simp [Member.uses])
  | method tree =>
    exact (writtenMethod_tracks hs hfound document scope tree).bind fun m =>
      Tracks.pureSub (by simp [Member.uses])

lemma writtenShape_tracks (scope : Scope) (kind : Kind) (tree : Source.DeclTree) :
    Tracks ρ given Shape.uses (writtenShape found document scope kind tree)
      (writtenShape found' document scope kind tree) := by
  unfold writtenShape
  split
  · refine (writtenAttributes_tracks hs hfound document scope tree.attributes).bind fun attributes => ?_
    exact Tracks.pureSub (by simp [Shape.uses])
  · refine (writtenConstraints_tracks hs hfound document _ tree.constraints).bind fun constraints => ?_
    refine (Tracks.mapM fun base _ => writtenType_tracks hs hfound document _ base).bind fun bases => ?_
    refine (Tracks.mapM fun member _ => writtenMember_tracks hs hfound document _ member).bind
      fun members => ?_
    refine (writtenAttributes_tracks hs hfound document _ tree.attributes).bind fun attributes => ?_
    refine Tracks.pureSub ?_
    intro u hu
    have hgenerics := @uses_constrained tree.typeParams constraints u
    simp only [Shape.uses, List.mem_append, List.flatMap_singleton'] at hu hgenerics ⊢
    tauto

end Written

lemma sourceShape_tracks (d : Declaration) :
    Tracks ρ given Shape.uses (sourceShape found d) (sourceShape found' d) := by
  unfold sourceShape
  split
  · exact writtenShape_tracks hs hfound _ _ _ _
  · exact Tracks.throw (hs.malformed _)

section Stored

variable {library : Library} (hlibrary : atHand library)

include hlibrary

section

variable (scope : Scope)

include scope

/-- Definitions and references are resolved without going on to a further token. -/
lemma tokenWith_row_tracks (fuel row : Nat) :
    Tracks ρ [] (fun u => [u]) (tokenWith found library scope fuel (.definition row))
        (tokenWith found' library scope fuel (.definition row)) ∧
      Tracks ρ [] (fun u => [u]) (tokenWith found library scope fuel (.reference row))
        (tokenWith found' library scope fuel (.reference row)) := by
  constructor
  · simp only [tokenWith]
    exact (hs.define library row hlibrary).chain fun id => hfound.told fun _ => tells_declared
  · simp only [tokenWith]
    refine (hs.check _).bindPlain fun ref => ?_
    refine (hs.check _).bindPlain fun ns => ?_
    refine (hs.check _).bindPlain fun name => ?_
    refine (Tracks.settle ?_).bindPlain fun assembly => ?_
    · exact fun _ => referenceAssembly_faults hs hlibrary
    · exact (external_tracks hs scope _ assembly).chain fun use => hfound.told fun _ htells => htells

/-- Specifications lead on to further tokens. With no fuel left none may be met, as there are
no more of them than were passed already, or a chain without end may occur. -/
lemma tokenWith_tracks (fuel : Nat) (t : Metadata.Token)
    (hpassed : library.module.Acyclic → ∀ row, t = .specification row →
      Metadata.Module.Passed library.module.SpecLeads library.module.typeSpecs.size row fuel) :
    Tracks ρ [] (fun u => [u]) (tokenWith found library scope fuel t)
      (tokenWith found' library scope fuel t) := by
  induction fuel generalizing t with
  | zero =>
    cases t with
    | definition row => exact (tokenWith_row_tracks hs hfound hlibrary scope 0 row).1
    | reference row => exact (tokenWith_row_tracks hs hfound hlibrary scope 0 row).2
    | specification row =>
      simp only [tokenWith]
      apply Tracks.bindCheck hs.malformed
      intro spec hspec
      refine (hs.check _).bindPlain fun blob => ?_
      refine (hs.check _).bindPlain fun type => ?_
      rcases hs.ends library hlibrary with hfault | hacyclic
      · exact Tracks.throw hfault
      · have hrow := Metadata.Module.mem_Icc_of_row hspec
        exact absurd rfl ((hpassed hacyclic row rfl).fuel_ne_zero (hacyclic.specs row) hrow)
  | succ fuel ih =>
    cases t with
    | definition row => exact (tokenWith_row_tracks hs hfound hlibrary scope _ row).1
    | reference row => exact (tokenWith_row_tracks hs hfound hlibrary scope _ row).2
    | specification row =>
      simp only [tokenWith]
      apply Tracks.bindCheck hs.malformed
      intro spec hspec
      apply Tracks.bindCheck hs.malformed
      intro blob hblob
      apply Tracks.bindCheck hs.malformed
      intro type htype
      apply signatureWith_tracks hs
      intro t ht
      apply ih
      rintro hacyclic next rfl
      have hrow := Metadata.Module.mem_Icc_of_row hspec
      apply (hpassed hacyclic row rfl).step (hacyclic.specs row) hrow
      exact Metadata.Module.specLeads_of_mem hspec hblob htype ht

lemma tokenFinding_tracks (t : Metadata.Token) :
    Tracks ρ given (fun u => [u]) (tokenFinding found library scope t)
      (tokenFinding found' library scope t) :=
  (tokenWith_tracks hs hfound hlibrary scope _ t fun _ row _ =>
    .start library.module.SpecLeads library.module.typeSpecs.size row).ofNone

lemma signatureFinding_tracks (type : Metadata.SigType) :
    Tracks ρ given (fun u => [u]) (signatureFinding found library scope type)
      (signatureFinding found' library scope type) :=
  (signatureWith_tracks hs _ scope type fun t _ => tokenFinding_tracks hs hfound hlibrary scope t).ofNone

lemma readAttribute_tracks (type : Metadata.Token) (signature value : Nat) :
    Tracks ρ given Attribute.uses (readAttribute found library scope type signature value)
      (readAttribute found' library scope type signature value) := by
  refine (tokenFinding_tracks hs hfound hlibrary scope type).bind fun use => ?_
  refine (hs.check _).bindPlain fun blob => ?_
  refine (hs.check _).bindPlain fun constructor => ?_
  refine (hs.check _).bindPlain fun blob => ?_
  refine Tracks.readGraph fun a a' hstep => ?_
  rw [hs.nameOf hstep]
  exact Tracks.pureSub (by simp [Attribute.uses])

lemma storedAttribute_tracks (row : Metadata.AttributeRow) :
    Tracks ρ given (·.toList.flatMap Attribute.uses) (storedAttribute found library scope row)
      (storedAttribute found' library scope row) := by
  refine (hs.check _).bindPlain fun type => ?_
  cases type with
  | none => exact Tracks.pureSub (by simp)
  | some type =>
    refine (isLeftOut_tracks hs library type.1).bindPlain fun leftOut => ?_
    split
    · exact Tracks.pureSub (by simp)
    · exact (readAttribute_tracks hs hfound hlibrary scope type.1 _ _).bind fun a =>
        Tracks.pureSub (by simp)

lemma storedAttributes_tracks (parent : Metadata.AttributeParent) :
    Tracks ρ given (·.flatMap Attribute.uses) (storedAttributes found library scope parent)
      (storedAttributes found' library scope parent) := by
  refine (Tracks.mapM fun row _ => storedAttribute_tracks hs hfound hlibrary scope row).bind
    fun rows => Tracks.pureSub ?_
  simp only [flatMap_filterMap_id]
  exact List.subset_append_left _ _

lemma storedConstraint_tracks (token : Metadata.Token) :
    Tracks ρ given Option.toList (storedConstraint found library scope token)
      (storedConstraint found' library scope token) := by
  refine (hs.check _).bindPlain fun name => ?_
  split
  · exact Tracks.pureSub (by simp)
  · exact (tokenFinding_tracks hs hfound hlibrary scope token).bind fun use =>
      Tracks.pureSub (by simp)

lemma storedConstraints_tracks (param : Nat) :
    Tracks ρ given id (storedConstraints found library scope param)
      (storedConstraints found' library scope param) := by
  refine (Tracks.mapM fun token _ => storedConstraint_tracks hs hfound hlibrary scope token).bind
    fun uses => Tracks.pureSub ?_
  intro u hu
  simp only [id, List.mem_filterMap, List.mem_append, List.mem_flatMap, Option.mem_toList] at hu ⊢
  exact .inl hu

lemma storedGenerics_tracks (owner : Metadata.GenericOwner) (names : List String) :
    Tracks ρ given (·.flatMap GenericParam.uses) (storedGenerics found library scope owner names)
      (storedGenerics found' library scope owner names) := by
  refine (Tracks.mapM fun param _ => storedConstraints_tracks hs hfound hlibrary scope param).bind
    fun constraints => Tracks.pureSub ?_
  exact List.Subset.trans (uses_zipWith names constraints) (List.subset_append_left _ _)

lemma storedProperty_tracks (accessed : Accessed) :
    Tracks ρ given Property.uses (storedProperty found library scope accessed)
      (storedProperty found' library scope accessed) := by
  refine (hs.check _).bindPlain fun row => ?_
  refine (hs.check _).bindPlain fun name => ?_
  refine (hs.check _).bindPlain fun blob => ?_
  refine (hs.check _).bindPlain fun signature => ?_
  refine (signatureFinding_tracks hs hfound hlibrary scope signature.type).bind fun type => ?_
  refine (storedAttributes_tracks hs hfound hlibrary scope _).bind fun attributes => ?_
  refine Tracks.readGraph fun a a' hstep => ?_
  rw [hs.nameOf hstep]
  refine Tracks.pureSub ?_
  intro u hu
  simp only [Property.uses, List.mem_cons, List.mem_append, List.not_mem_nil, or_false] at hu ⊢
  tauto

lemma storedMethod_tracks (row : Nat) :
    Tracks ρ given Method.uses (storedMethod found library scope row)
      (storedMethod found' library scope row) := by
  refine (hs.check _).bindPlain fun method => ?_
  refine (hs.check _).bindPlain fun name => ?_
  refine (hs.check _).bindPlain fun blob => ?_
  refine (hs.check _).bindPlain fun signature => ?_
  refine (hs.check _).bindPlain fun genericNames => ?_
  refine (signatureFinding_tracks hs hfound hlibrary _ signature.ret).bind fun returns => ?_
  refine (hs.check _).bindPlain fun names => ?_
  refine (Tracks.mapM fun type _ => signatureFinding_tracks hs hfound hlibrary _ type).bind
    fun types => ?_
  refine (storedGenerics_tracks hs hfound hlibrary _ _ genericNames).bind fun generics => ?_
  refine (storedAttributes_tracks hs hfound hlibrary _ _).bind fun attributes => ?_
  refine Tracks.readGraph fun a a' hstep => ?_
  rw [hs.nameOf hstep]
  refine Tracks.pureSub ?_
  intro u hu
  simp only [Method.uses, List.mem_cons, List.mem_append, List.mem_map, List.map_map,
    List.flatMap_singleton'] at hu ⊢
  rcases hu with rfl | (⟨entry, hentry, rfl⟩ | hu) | hu
  · tauto
  · have := List.fst_mem_of_mem_zipIdx hentry
    simp only [Function.comp]
    tauto
  · tauto
  · tauto

lemma storedMember_tracks (properties : List (Nat × Accessed)) (row : Nat) :
    Tracks ρ given (·.toList.flatMap Member.uses) (storedMember found library scope properties row)
      (storedMember found' library scope properties row) := by
  unfold storedMember
  cases properties.lookup row with
  | some accessed =>
    exact (storedProperty_tracks hs hfound hlibrary scope accessed).bind fun p =>
      Tracks.pureSub (by simp [Member.uses])
  | none =>
    refine (hs.check _).bindPlain fun method => ?_
    refine (hs.check _).bindPlain fun name => ?_
    split
    · exact Tracks.pureSub (by simp)
    · exact (storedMethod_tracks hs hfound hlibrary scope row).bind fun m =>
        Tracks.pureSub (by simp [Member.uses])

lemma storedShape_tracks (kind : Kind) (row : Nat) :
    Tracks ρ given Shape.uses (storedShape found library scope kind row)
      (storedShape found' library scope kind row) := by
  unfold storedShape
  split
  · refine (storedAttributes_tracks hs hfound hlibrary scope _).bind fun attributes => ?_
    exact Tracks.pureSub (by simp [Shape.uses])
  · refine (hs.check _).bindPlain fun names => ?_
    refine (storedGenerics_tracks hs hfound hlibrary _ _ names).bind fun generics => ?_
    refine (hs.check _).bindPlain fun bases => ?_
    refine (Tracks.mapM fun base _ => tokenFinding_tracks hs hfound hlibrary _ base).bind
      fun bases => ?_
    refine (hs.check _).bindPlain fun methods => ?_
    refine (Tracks.mapM fun method _ => storedMember_tracks hs hfound hlibrary _ _ method).bind
      fun members => ?_
    refine (storedAttributes_tracks hs hfound hlibrary _ _).bind fun attributes => ?_
    refine Tracks.pureSub ?_
    intro u hu
    simp only [Shape.uses, List.mem_append, flatMap_filterMap_id, List.flatMap_singleton'] at hu ⊢
    tauto

end

end Stored

/-- Finding out a shape tracks itself, as long as following a use does and the module of the
declaration is at hand. -/
lemma shapeOf_tracks (d : Declaration)
    (hmodule : ∀ m row, d.provenance = .module m row → atHand ⟨m, d.location⟩) :
    Tracks ρ given Shape.uses (shapeOf found d) (shapeOf found' d) := by
  unfold shapeOf
  split
  · exact sourceShape_tracks hs hfound d
  · exact storedShape_tracks hs hfound (hmodule _ _ ‹_›) _ _ _

end Found

end Work

end TypeAtlas
