import TypeAtlas.Proofs.Compiling
import TypeAtlas.Proofs.KnownShapes
import TypeAtlas.Proofs.PlainNames

/-!
Loading from a module that was built. Each token and signature of it is resolved to the use
that the plan has in its place, so a declaration gets the shape that is planned for it
(`Plan.StoredIn.storedShape_yields`).
-/

namespace TypeAtlas

open Metadata Work

variable {owner : GenericOwner} {names : List String} {place : Nat} {d : PlanDecl} {type : PlanType} {name : String}

/-! Signatures are read back as they were written: all rows fit into tokens. -/

section Reduced

variable {x : Externals} {kinds : List Kind} {s : PlanScope}

lemma Externals.reduced_sig (hdecimal : x.decimal.row ≤ 4) (type : Builtin) :
    (x.sig type).reduced = x.sig type := by
  unfold sig
  split
  · rw [SigType.reduced, Token.reduced_eq_self (by omega)]
  · rfl

namespace PlanType

mutual

lemma reduced_sig (hx : x.nullable.row ≤ 4 ∧ x.decimal.row ≤ 4) (hcount : s.arities.length < 0x40000000) :
    ∀ type : PlanType, type.fits s = true → (type.sig x kinds).reduced = type.sig x kinds
  | .builtin type, _ => Externals.reduced_sig hx.2 type
  | .nullable type, _ => by
    rw [sig, SigType.reduced, SigType.reducedEach, SigType.reducedEach, Externals.reduced_sig hx.2,
      Token.reduced_eq_self (by omega)]
  | .param .type place, _ => rfl
  | .param .method place, _ => rfl
  | .declared place args, h => by
    obtain ⟨hplace, hargs⟩ := fits_declared h
    obtain ⟨hlt, -⟩ := List.getElem?_eq_some_iff.mp hplace
    have htoken : (Token.definition (place + 1)).reduced = .definition (place + 1) :=
      Token.reduced_eq_self (by rw [Token.row]; omega)
    rw [sig]
    split
    · split <;> rw [SigType.reduced, htoken]
    · rw [SigType.reduced, htoken, reducedEach_sigEach hx hcount args hargs]
  | .array element rank, h => by
    rw [fits, Bool.and_eq_true] at h
    have helement := reduced_sig hx hcount element h.2
    rw [sig]
    split <;> rw [SigType.reduced, helement]

lemma reducedEach_sigEach (hx : x.nullable.row ≤ 4 ∧ x.decimal.row ≤ 4) (hcount : s.arities.length < 0x40000000) :
    ∀ types : List PlanType, fitsEach s types = true →
    SigType.reducedEach (sigEach x kinds types) = sigEach x kinds types
  | [], _ => rfl
  | type :: types, h => by
    rw [fitsEach, Bool.and_eq_true] at h
    rw [sigEach, SigType.reducedEach, reduced_sig hx hcount type h.1, reducedEach_sigEach hx hcount types h.2]

end

end PlanType

end Reduced

lemma PlanType.plainPlace?_eq_some (h : type.plainPlace? = some place) : type = .declared place [] := by
  unfold plainPlace? at h
  split at h
  · rw [Option.some.inj h]
  · cases h

lemma PlanDecl.base?_eq_some {kinds : List Kind} (h : d.base? kinds = some type) :
    d.bases = type :: d.interfaces kinds := by
  have hinterfaces : d.interfaces kinds = d.bases.tail := by
    rw [interfaces, h]
    rfl
  rw [hinterfaces]
  unfold base? at h
  split at h
  · rename_i hbases
    rw [hbases]
    split at h
    · rw [Option.some.inj h]
      rfl
    · cases h
  · cases h

/-! What the tokens of a module are called. -/

lemma Metadata.Module.External.typeName {m : Module} {token : Token} {assembly ns : String}
    (h : m.External token assembly ns name) :
    m.typeName token = .ok (some (Text.untilZero ns, Text.untilZero name)) := by
  obtain ⟨row, scope, -, rfl, ⟨found, hrow, -, hns, hname⟩, -⟩ := h
  rw [Module.typeName, hrow]
  change (m.strings.get found.ns >>= fun ns => m.strings.get found.name >>= fun name =>
    pure (some (ns, name))) = _
  rw [hns, hname]
  rfl

lemma Metadata.Module.length_genericNames {m : Module} (h : m.genericNames owner = .ok names) :
    names.length = (m.genericParamsOf owner).length := by
  unfold Module.genericNames at h
  generalize m.genericParamsOf owner = rows at h
  induction rows generalizing names with
  | nil =>
    cases h
    rfl
  | cons row rows ih =>
    rw [List.mapM_cons] at h
    obtain ⟨name, -, hrest⟩ := bind_eq_ok h
    obtain ⟨others, hothers, hlast⟩ := bind_eq_ok hrest
    cases hlast
    rw [List.length_cons, List.length_cons, ih hothers]

/-- The definitions of a module are called what some declarations are called, in the order of their
rows. None of them is taken for a type of the runtime. -/
structure Metadata.Module.Titled (m : Module) (decls : List PlanDecl) : Prop where
  name : ∀ {place d}, decls[place]? = some d →
    ∃ raw, m.typeDefName (place + 1) = .ok (d.ns, raw) ∧ splitArity raw = (d.name, d.arity)
  outside : ∀ d ∈ decls, d.ns ≠ "System"

/-- The types of the runtime that signatures mean are called what they are. -/
structure Externals.NamedIn (x : Externals) (m : Module) : Prop where
  nullable : m.typeName x.nullable = .ok (some ("System", "Nullable`1"))
  decimal : ∃ row assembly, x.decimal = .reference row ∧
    m.typeName (.reference row) = .ok (some ("System", "Decimal")) ∧ m.referenceAssembly row = .ok assembly

namespace Plan

variable {plan : Plan}

namespace StoredIn

variable {x : Externals} {m : Module} (h : plan.StoredIn x m)

include h

lemma typeDefName (hd : plan.decls[place]? = some d) :
    m.typeDefName (place + 1) = .ok (d.ns, markArity d.name d.arity) := by
  obtain ⟨found, hrow, -, hns, hname, -⟩ := (h.types place d hd).definition
  have hfits := fits_at hd
  rw [hfits.storedNs] at hns
  rw [hfits.storedName] at hname
  rw [Module.typeDefName, hrow]
  change (m.strings.get found.ns >>= fun ns => m.strings.get found.name >>= fun name =>
    pure (ns, name)) = _
  rw [hns, hname]
  rfl

lemma typeName (hd : plan.decls[place]? = some d) :
    m.typeName (.definition (place + 1)) = .ok (some (d.ns, markArity d.name d.arity)) := by
  rw [Module.typeName, h.typeDefName hd]
  rfl

/-- A base or a constraint is no type of the runtime. -/
lemma typeName_ne_system {s : PlanScope} (hs : s.arities = plan.arities) {token : Token}
    (hfits : type.fitsBase s = true) (htoken : m.TokenFor x plan.kinds token type) :
    ∃ name, m.typeName token = .ok name ∧ ∀ rest, name ≠ some ("System", rest) := by
  unfold Module.TokenFor at htoken
  split at htoken
  · rename_i place hplace
    obtain rfl := htoken
    obtain rfl := PlanType.plainPlace?_eq_some hplace
    obtain ⟨d, hd, -⟩ := exists_decl hs ((Bool.and_eq_true _ _).mp hfits).2
    refine ⟨_, h.typeName hd, fun rest heq => ?_⟩
    exact (fits_at hd).ns_ne_system (Prod.mk.inj (Option.some.inj heq)).1
  · obtain ⟨row, rfl, -⟩ := htoken
    exact ⟨none, rfl, fun rest heq => by cases heq⟩

/-- The kind of a declaration shows in its flags and its base. -/
lemma kindOf (hd : plan.decls[place]? = some d) : m.kindOf (place + 1) = .ok d.kind := by
  obtain ⟨row, hrow, hflags, -, -, hbase⟩ := (h.types place d hd).definition
  have hfits := fits_at hd
  have hinterface : isInterface row.flags = decide (d.kind = .interfaceType) := by
    rw [hflags, PlanDecl.flags]
    cases d.kind <;> rfl
  -- A class is what is no interface and does not extend one of two types of the runtime.
  have hclass : ∀ token name, d.kind = .classType → row.base = some token → m.typeName token = .ok name →
      name ≠ some ("System", "ValueType") → name ≠ some ("System", "Enum") →
      m.kindOf (place + 1) = .ok d.kind := by
    intro token name hkind hsome hname hvalue henum
    unfold Module.kindOf
    rw [hrow]
    simp only [bind, Except.bind, hinterface, hkind, hsome, hname]
    split <;> simp_all [pure, Except.pure]
  unfold Module.BaseFor at hbase
  cases hkind : d.kind with
  | classType =>
    rw [hkind] at hbase
    dsimp only at hbase
    rw [← hkind]
    cases hextends : d.base? plan.kinds with
    | some type =>
      rw [hextends] at hbase
      obtain ⟨token, htoken, hfor⟩ := hbase
      have hfirst := hfits.bases type (PlanDecl.base?_eq_some hextends ▸ List.mem_cons_self)
      obtain ⟨name, hname, hne⟩ := h.typeName_ne_system rfl hfirst hfor
      exact hclass token name hkind htoken hname (hne _) (hne _)
    | none =>
      rw [hextends] at hbase
      exact hclass x.object _ hkind hbase h.object.typeName (by decide) (by decide)
  | structType =>
    rw [hkind] at hbase
    unfold Module.kindOf
    rw [hrow]
    simp only [bind, Except.bind, hinterface, hkind, hbase, h.valueType.typeName]
    rfl
  | interfaceType =>
    unfold Module.kindOf
    rw [hrow]
    simp only [bind, Except.bind, hinterface, hkind]
    rfl
  | enumType => exact absurd hkind hfits.kind

end StoredIn

end Plan

/-! What tokens and signatures are resolved to. -/

section Resolution

variable {decls : List PlanDecl} {plan : Plan} {x : Externals} {m : Module} {location : String}
  {ids : Nat → DeclId} {P : Atlas → Prop} {found : Use → Work Unit} {s : PlanScope} {scope : Scope}
  {members : List PlanMember} {generics : List PlanParam} {row key method property : Nat}
  {params : List (String × PlanType)} {returns : PlanType}

lemma define_yields (h : m.Titled decls) (hknown : PlanDecl.Known decls location ids P found)
    (hd : decls[place]? = some d) : Yields P (define ⟨m, location⟩ (place + 1)) (· = ids place) := by
  obtain ⟨raw, hname, harity⟩ := h.name hd
  unfold define
  refine (Yields.check hname).bind_eq ?_
  dsimp only
  rw [harity]
  dsimp only
  refine Yields.graph.bind fun g hg => ?_
  obtain ⟨a, ha, rfl⟩ := hg
  have hfound := hknown.registered ha hd
  rw [PlanDecl.fullName] at hfound
  rw [hfound]
  exact .pure rfl

/-- A declaration without arguments. -/
lemma token_yields (h : m.Titled decls) (hknown : PlanDecl.Known decls location ids P found) (fuel : Nat)
    (hd : decls[place]? = some d) :
    Yields P (tokenWith found ⟨m, location⟩ scope fuel (.definition (place + 1)))
      (· = .declared (ids place) [] none) := by
  unfold tokenWith
  refine (define_yields h hknown hd).bind_eq ?_
  obtain ⟨hplace, -⟩ := List.getElem?_eq_some_iff.mp hd
  refine (hknown.follows _ fun target htarget => ?_).bind fun _ _ => .pure rfl
  exact ⟨place, hplace, (Option.some.inj htarget).symm⟩

lemma decimal_yields (h : x.NamedIn m) (hknown : PlanDecl.Known decls location ids P found) (fuel : Nat) :
    Yields P (tokenWith found ⟨m, location⟩ scope fuel x.decimal) (· = .builtin .decimal none) := by
  obtain ⟨row, assembly, htoken, hname, hassembly⟩ := h.decimal
  obtain ⟨ref, href, hstored⟩ := bind_eq_ok hname
  obtain ⟨ns, hns, hrest⟩ := bind_eq_ok hstored
  obtain ⟨name, htext, hpair⟩ := bind_eq_ok hrest
  cases hpair
  rw [htoken, tokenWith]
  refine (Yields.check href).bind_eq ?_
  refine (Yields.check hns).bind_eq ?_
  refine (Yields.check htext).bind_eq ?_
  refine (Yields.settle hassembly).bind fun home _ => ?_
  -- The name of the type says what it is.
  have hexternal : Yields P (external scope (qualify "System" "Decimal") home) (· = .builtin .decimal none) :=
    .pure rfl
  refine hexternal.bind_eq ?_
  exact (hknown.follows _ fun _ htarget => by cases htarget).bind fun _ _ => .pure rfl

/-- A builtin type, whether it has a code or is referenced by its name. -/
lemma builtin_yields {token : Token → Work Use}
    (hdecimal : Yields P (token x.decimal) (· = .builtin .decimal none)) (type : Builtin) :
    Yields P (signatureWith token m scope (x.sig type)) (· = .builtin type none) := by
  unfold Externals.sig
  split
  · rename_i htype
    rw [signatureWith, htype]
    exact hdecimal
  · rw [signatureWith]
    exact .pure rfl

/-- No declaration is taken for a nullable type. -/
lemma isNullable_eq_false (h : m.Titled decls) (hd : decls[place]? = some d) (args : List SigType) :
    isNullable m (.definition (place + 1)) args = .ok false := by
  obtain ⟨raw, hname, -⟩ := h.name hd
  unfold isNullable
  split
  · have hne : (some (d.ns, raw) == some ("System", "Nullable`1")) = false := by
      rw [beq_eq_false_iff_ne]
      intro heq
      exact h.outside d (List.mem_of_getElem? hd) (Prod.mk.inj (Option.some.inj heq)).1
    rw [Module.typeName, hname]
    change Except.ok _ = _
    rw [hne]
  · rfl

lemma numbered_yields {owner : ParamOwner} {number : Nat} (hname : names[number]? = some name) :
    Yields P (numbered scope names owner number) (· = .param name number owner none) := by
  rw [numbered, hname]
  exact .pure rfl

mutual

/-- A type in a signature is resolved to the use that is planned. -/
lemma signature_yields (h : m.Titled decls) (hx : x.NamedIn m) (kinds : List Kind) (hs : s.arities = decls.map PlanDecl.arity)
    (hseen : s.Seen scope) {token : Token → Work Use} (hdefinition : ∀ place d, decls[place]? = some d →
      Yields P (token (.definition (place + 1))) (· = .declared (ids place) [] none))
    (hdecimal : Yields P (token x.decimal) (· = .builtin .decimal none)) :
    ∀ type : PlanType, type.inScope s = true →
      Yields P (signatureWith token m scope (type.sig x kinds)) (· = type.use ids s)
  | .builtin type, _ => by
    rw [PlanType.sig, PlanType.use]
    exact builtin_yields hdecimal type
  | .nullable type, _ => by
    have hnullable : isNullable m x.nullable [x.sig type] = .ok true := by
      rw [isNullable, hx.nullable]
      rfl
    rw [PlanType.sig, PlanType.use, signatureWith]
    refine (Yields.check hnullable).bind_eq ?_
    rw [signatureEach, signatureEach]
    refine ((builtin_yields hdecimal type).bind (R := (· = [.builtin type none]))
      fun use huse => ?_).bind fun uses huses => ?_
    · subst huse
      exact (Yields.pure (Q := (· = [])) rfl).bind fun uses huses => .pure (by rw [huses])
    · subst huses
      exact .pure rfl
  | .param .type place, hscoped => by
    cases hname : s.typeParams[place]? with
    | none =>
      rw [PlanType.inScope, hname] at hscoped
      cases hscoped
    | some name =>
      rw [PlanType.sig, signatureWith, PlanType.use, List.getD_eq_getElem?_getD, hname]
      exact numbered_yields (hseen.typeParams ▸ hname)
  | .param .method place, hscoped => by
    rw [PlanType.inScope, decide_eq_true_eq] at hscoped
    obtain ⟨name, hname⟩ : ∃ name, s.methodParams[place]? = some name :=
      ⟨_, List.getElem?_eq_getElem hscoped⟩
    rw [PlanType.sig, signatureWith, PlanType.use, List.getD_eq_getElem?_getD, hname]
    exact numbered_yields (hseen.methodParams ▸ hname)
  | .declared place args, hscoped => by
    obtain ⟨hplace, hargs⟩ := PlanType.inScope_declared hscoped
    rw [hs, List.getElem?_map] at hplace
    obtain ⟨d, hd, -⟩ := Option.map_eq_some_iff.mp hplace
    have htoken := hdefinition place d hd
    rw [PlanType.sig, PlanType.use]
    split
    · rename_i hnone
      obtain rfl := List.isEmpty_iff.mp hnone
      split <;> exact htoken
    · have huses := signatureEach_yields h hx kinds hs hseen hdefinition hdecimal args hargs
      rw [signatureWith]
      refine (Yields.check (isNullable_eq_false h hd _)).bind_eq ?_
      refine huses.bind_eq ?_
      exact htoken.bind fun use huse => .pure (by rw [huse, Use.withArgs])
  | .array element rank, hscoped => by
    rw [PlanType.inScope, Bool.and_eq_true] at hscoped
    have helement := signature_yields h hx kinds hs hseen hdefinition hdecimal element hscoped.2
    rw [PlanType.sig, PlanType.use]
    split
    · rename_i hrank
      subst hrank
      rw [signatureWith]
      exact helement.bind fun use huse => .pure (by rw [huse])
    · rw [signatureWith]
      exact helement.bind fun use huse => .pure (by rw [huse])

lemma signatureEach_yields (h : m.Titled decls) (hx : x.NamedIn m) (kinds : List Kind) (hs : s.arities = decls.map PlanDecl.arity)
    (hseen : s.Seen scope) {token : Token → Work Use} (hdefinition : ∀ place d, decls[place]? = some d →
      Yields P (token (.definition (place + 1))) (· = .declared (ids place) [] none))
    (hdecimal : Yields P (token x.decimal) (· = .builtin .decimal none)) :
    ∀ types : List PlanType, PlanType.inScopeEach s types = true →
      Yields P (signatureEach token m scope (PlanType.sigEach x kinds types))
        (· = PlanType.useEach ids s types)
  | [], _ => .pure rfl
  | type :: types, hscoped => by
    rw [PlanType.inScopeEach, Bool.and_eq_true] at hscoped
    rw [PlanType.sigEach, signatureEach, PlanType.useEach]
    refine (signature_yields h hx kinds hs hseen hdefinition hdecimal type hscoped.1).bind fun use huse => ?_
    refine (signatureEach_yields h hx kinds hs hseen hdefinition hdecimal types hscoped.2).bind fun uses huses => ?_
    exact .pure (by rw [huse, huses])

end

lemma signatureFinding_yields (h : m.Titled decls) (hx : x.NamedIn m) (kinds : List Kind)
    (hknown : PlanDecl.Known decls location ids P found) (hs : s.arities = decls.map PlanDecl.arity)
    (hseen : s.Seen scope) (hscoped : type.inScope s = true) :
    Yields P (signatureFinding found ⟨m, location⟩ scope (type.sig x kinds)) (· = type.use ids s) :=
  signature_yields h hx kinds hs hseen (fun _ _ hd => token_yields h hknown _ hd)
    (decimal_yields hx hknown _) type hscoped

namespace Plan.StoredIn

lemma titled (h : plan.StoredIn x m) : m.Titled plan.decls where
  name := fun hd => ⟨_, h.typeDefName hd, (fits_at hd).splitArity⟩
  outside := fun d hd => (plan.fits d hd).ns_ne_system

lemma namedIn (h : plan.StoredIn x m) : x.NamedIn m where
  nullable := h.nullable.typeName
  decimal := by
    have hname := h.decimal.typeName
    obtain ⟨row, refScope, assembly, htoken, ⟨ref, href, hscope, -, -⟩, hassembly, htext⟩ := h.decimal
    refine ⟨row, Text.untilZero coreAssembly, htoken, ?_, ?_⟩
    · rw [htoken] at hname
      exact hname
    · rw [Module.referenceAssembly, href]
      dsimp only
      rw [hscope, Module.scopeAssembly, hassembly]
      dsimp only
      rw [htext]
      rfl

lemma planned_yields (h : plan.StoredIn x m) (hknown : plan.Known location ids P found)
    (hs : s.arities = plan.arities) (hseen : s.Seen scope) (hscoped : type.inScope s = true) :
    Yields P (signatureFinding found ⟨m, location⟩ scope (type.sig x plan.kinds)) (· = type.use ids s) :=
  signatureFinding_yields h.titled h.namedIn plan.kinds hknown hs hseen hscoped

lemma arities_lt (hs : s.arities = plan.arities) : s.arities.length < 0x40000000 := by
  rw [hs, Plan.arities, List.length_map]
  exact plan.count

/-- A base or a constraint is resolved to the use that is planned. -/
lemma tokenFinding_yields (h : plan.StoredIn x m) (hknown : plan.Known location ids P found)
    (hs : s.arities = plan.arities) (hseen : s.Seen scope) {token : Token} (hfits : type.fitsBase s = true)
    (htoken : m.TokenFor x plan.kinds token type) :
    Yields P (tokenFinding found ⟨m, location⟩ scope token) (· = type.use ids s) := by
  obtain ⟨hdeclared, hfits⟩ := (Bool.and_eq_true _ _).mp hfits
  unfold Module.TokenFor at htoken
  split at htoken
  · rename_i place hplace
    obtain rfl := htoken
    obtain rfl := PlanType.plainPlace?_eq_some hplace
    obtain ⟨d, hd, -⟩ := exists_decl hs hfits
    exact token_yields h.titled hknown _ hd
  · obtain ⟨row, rfl, spec, blob, hrow, hblob, hwrite⟩ := htoken
    have hread : SigType.ofBlob blob = .ok (type.sig x plan.kinds) := by
      rw [SigType.ofBlob_write hwrite, PlanType.reduced_sig h.rows (arities_lt hs) type hfits]
    -- There is a specification, so one may be passed.
    obtain ⟨fuel, hfuel⟩ : ∃ fuel, m.typeSpecs.size = fuel + 1 := by
      have hle := Module.row_le_size hrow
      exact ⟨m.typeSpecs.size - 1, by omega⟩
    unfold tokenFinding
    dsimp only
    rw [hfuel, tokenWith]
    refine (Yields.check hrow).bind_eq ?_
    refine (Yields.check hblob).bind_eq ?_
    refine (Yields.check hread).bind_eq ?_
    exact signature_yields h.titled h.namedIn plan.kinds hs hseen (fun _ _ hd => token_yields h.titled hknown _ hd)
      (decimal_yields h.namedIn hknown _) type (PlanType.inScope_of_fits hfits)

end Plan.StoredIn

/-! Generic parameters, bases and parameters. -/

namespace Metadata.Module

def GenericAt (m : Module) (x : Externals) (kinds : List Kind) (row : Nat) (param : PlanParam) : Prop :=
  (∃ found, m.genericParam row = .ok found ∧ m.strings.get found.name = .ok (Text.untilZero param.name)) ∧
    List.Forall₂ (m.TokenFor x kinds) (m.constraintsOf row) param.constraints

lemma GenericsAt.forall₂ {kinds : List Kind} (h : m.GenericsAt x kinds row generics) :
    List.Forall₂ (m.GenericAt x kinds) (List.range' row generics.length) generics := by
  induction generics generalizing row with
  | nil => exact .nil
  | cons param params ih =>
    obtain ⟨hname, hconstraints, hrest⟩ := h
    rw [List.length_cons, List.range'_succ]
    exact .cons ⟨hname, hconstraints⟩ (ih hrest)

end Metadata.Module

lemma filterMap_id_map_some {α β : Type} (f : α → β) (xs : List α) :
    (xs.map fun x => some (f x)).filterMap id = xs.map f := by
  rw [List.filterMap_map]
  exact congrFun List.filterMap_eq_map xs

lemma storedName (h : isPlainName name = true) : Text.untilZero name = name :=
  Text.untilZero_eq_self (notMem_of_isPlainName h (by decide))

namespace Plan.StoredIn

variable {token : Token}

lemma genericNames (hgenerics : m.GenericsOf x plan.kinds owner generics) (hfits : PlanParam.fitAll s generics) :
    m.genericNames owner = .ok (generics.map PlanParam.name) := by
  obtain ⟨start, hrows, hat⟩ := hgenerics
  rw [Module.genericNames, hrows]
  refine mapM_ok (forall₂_of_mem hat.forall₂ fun row param hparam hrow => ?_)
  obtain ⟨⟨found, hfound, hname⟩, -⟩ := hrow
  rw [hfound]
  change m.strings.get found.name = _
  rw [hname, storedName (hfits.2.2 param hparam).1]

section

variable (h : plan.StoredIn x m) (hknown : plan.Known location ids P found)
  (hs : s.arities = plan.arities) (hseen : s.Seen scope)

include h hknown hs hseen

lemma storedConstraint_yields (hfits : type.fitsBase s = true)
    (htoken : m.TokenFor x plan.kinds token type) :
    Yields P (storedConstraint found ⟨m, location⟩ scope token) (· = some (type.use ids s)) := by
  obtain ⟨name, hname, hne⟩ := h.typeName_ne_system hs hfits htoken
  unfold storedConstraint
  refine (Yields.check hname).bind_eq ?_
  rw [if_neg fun heq => hne _ (beq_iff_eq.mp heq)]
  exact (h.tokenFinding_yields hknown hs hseen hfits htoken).bind fun use huse => .pure (by rw [huse])

lemma storedConstraints_yields {types : List PlanType} (hfits : ∀ type ∈ types, type.fitsBase s = true)
    (htokens : List.Forall₂ (m.TokenFor x plan.kinds) (m.constraintsOf row) types) :
    Yields P (storedConstraints found ⟨m, location⟩ scope row) (· = types.map (PlanType.use ids s)) := by
  unfold storedConstraints
  refine (Yields.mapM_eq (forall₂_of_mem htokens fun token type htype htoken =>
    h.storedConstraint_yields hknown hs hseen (hfits type htype) htoken)).bind fun uses huses => .pure ?_
  subst huses
  rw [filterMap_id_map_some]

/-- The generic parameters of a type or a method. -/
lemma storedGenerics_yields (hgenerics : m.GenericsOf x plan.kinds owner generics)
    (hfits : PlanParam.fitAll s generics) :
    Yields P (storedGenerics found ⟨m, location⟩ scope owner (generics.map PlanParam.name))
      (· = generics.map (PlanParam.generic ids s)) := by
  obtain ⟨start, hrows, hat⟩ := hgenerics
  unfold storedGenerics
  dsimp only
  rw [hrows]
  refine (Yields.mapM_eq (forall₂_of_mem hat.forall₂ fun row param hparam hrow =>
    h.storedConstraints_yields hknown hs hseen (hfits.2.2 param hparam).2 hrow.2)).bind
      fun constraints hconstraints => .pure ?_
  subst hconstraints
  rw [List.zipWith_map, List.zipWith_self]
  rfl

end

lemma isImplicitBase_external {assembly : String} (h : m.External token assembly "System" name)
    (hname : name = "Object" ∨ name = "ValueType") : isImplicitBase m token = true := by
  rw [isImplicitBase, h.typeName]
  rcases hname with rfl | rfl <;> rfl

lemma isImplicitBase_eq_false (h : plan.StoredIn x m) (hs : s.arities = plan.arities)
    (hfits : type.fitsBase s = true) (htoken : m.TokenFor x plan.kinds token type) :
    isImplicitBase m token = false := by
  obtain ⟨name, hname, hne⟩ := h.typeName_ne_system hs hfits htoken
  rw [isImplicitBase, hname]
  split
  · rename_i heq
    exact absurd (Except.ok.inj heq) (hne _)
  · rfl

end Plan.StoredIn

lemma PlanDecl.interfaces_of_none {kinds : List Kind} (h : d.base? kinds = none) : d.interfaces kinds = d.bases := by
  rw [interfaces, h]
  rfl

namespace Plan.StoredIn

/-- The bases in a module are those of the plan: what follows from the kind is left out. -/
lemma basesOf (h : plan.StoredIn x m) (hd : plan.decls[place]? = some d) :
    ∃ tokens, Work.basesOf m (place + 1) = .ok tokens ∧
      List.Forall₂ (m.TokenFor x plan.kinds) tokens d.bases := by
  obtain ⟨row, hrow, -, -, -, hbase⟩ := (h.types place d hd).definition
  have hinterfaces := (h.types place d hd).interfaces
  have hfits := (fits_at hd).bases
  refine ⟨row.base.toList.filter (!isImplicitBase m ·) ++ m.interfacesOf (place + 1), ?_, ?_⟩
  · rw [Work.basesOf, hrow]
    rfl
  · -- Where nothing is extended by name, the token of the base is implicit or absent.
    have hnone : d.base? plan.kinds = none → row.base.toList.filter (!isImplicitBase m ·) = [] →
        List.Forall₂ (m.TokenFor x plan.kinds)
          (row.base.toList.filter (!isImplicitBase m ·) ++ m.interfacesOf (place + 1)) d.bases := by
      intro hnone himplicit
      rwa [himplicit, List.nil_append, ← PlanDecl.interfaces_of_none hnone]
    unfold Module.BaseFor at hbase
    cases hkind : d.kind with
    | classType =>
      rw [hkind] at hbase
      dsimp only at hbase
      cases hextends : d.base? plan.kinds with
      | some type =>
        rw [hextends] at hbase
        obtain ⟨token, htoken, hfor⟩ := hbase
        have hbases := PlanDecl.base?_eq_some hextends
        have hfirst : type.fitsBase (d.scope plan.arities) = true :=
          hfits type (hbases ▸ List.mem_cons_self)
        rw [hbases, htoken, Option.toList_some,
          List.filter_cons_of_pos (by rw [h.isImplicitBase_eq_false rfl hfirst hfor]; rfl)]
        exact .cons hfor hinterfaces
      | none =>
        rw [hextends] at hbase
        refine hnone hextends ?_
        rw [hbase, Option.toList_some,
          List.filter_cons_of_neg (by rw [isImplicitBase_external h.object (.inl rfl)]; decide)]
        rfl
    | structType =>
      rw [hkind] at hbase
      refine hnone (by rw [PlanDecl.base?, hkind]) ?_
      rw [hbase, Option.toList_some,
        List.filter_cons_of_neg (by rw [isImplicitBase_external h.valueType (.inr rfl)]; decide)]
      rfl
    | interfaceType =>
      rw [hkind] at hbase
      refine hnone (by rw [PlanDecl.base?, hkind]) ?_
      rw [hbase]
      rfl
    | enumType => exact absurd hkind (fits_at hd).kind

end Plan.StoredIn

/-! Members. -/

lemma lookup_eq_some_of_forall {β : Type} {entries : List (Nat × β)} {value : β} (hmem : (key, value) ∈ entries)
    (hsame : ∀ entry ∈ entries, entry.1 = key → entry.2 = value) : entries.lookup key = some value := by
  cases hfound : entries.lookup key with
  | none =>
    rw [List.lookup_eq_none_iff] at hfound
    have hne := hfound _ hmem
    simp at hne
  | some other =>
    obtain ⟨before, after, rfl, -⟩ := List.lookup_eq_some_iff.mp hfound
    exact congrArg some (hsame (key, other) (by simp) rfl)

section

variable {β : Type} {entries : List (Nat × β)} (hkeys : (entries.map Prod.fst).Nodup)

include hkeys

/-- Keys that differ are found from either end. -/
lemma lookup_of_mem {value : β} (h : (key, value) ∈ entries) : entries.lookup key = some value :=
  lookup_eq_some_of_forall h fun _ hentry heq =>
    congrArg Prod.snd (List.inj_on_of_nodup_map hkeys hentry h heq)

lemma lookup_reverse_of_mem {value : β} (h : (key, value) ∈ entries) : entries.reverse.lookup key = some value := by
  refine lookup_of_mem ?_ (List.mem_reverse.mpr h)
  rw [List.map_reverse]
  exact List.nodup_reverse.mpr hkeys

lemma lookup_reverse (key : Nat) : entries.reverse.lookup key = entries.lookup key := by
  cases hfound : entries.lookup key with
  | none =>
    rw [List.lookup_eq_none_iff] at hfound ⊢
    intro entry hentry
    exact hfound entry (List.mem_reverse.mp hentry)
  | some value =>
    obtain ⟨before, after, rfl, -⟩ := List.lookup_eq_some_iff.mp hfound
    exact lookup_reverse_of_mem hkeys (List.mem_append_right before List.mem_cons_self)

end

namespace Plan.StoredIn

/-- A built module has no attributes. -/
lemma storedAttributes_yields (h : plan.StoredIn x m) (parent : AttributeParent) :
    Yields P (storedAttributes found ⟨m, location⟩ scope parent) (· = []) := by
  unfold storedAttributes Module.attributesOf
  dsimp only
  rw [h.attributes]
  exact .pure rfl

/-- The names of parameters with the places they have, counted from `sequence`. -/
lemma paramRows {start sequence : Nat} (hat : m.ParamsAt start sequence names)
    (hnames : ∀ name ∈ names, Text.untilZero name = name) (hpos : 0 < sequence)
    (hlt : sequence + names.length ≤ 0x10000) :
    (List.range' start names.length).mapM (fun row => do
        let param ← m.param row
        if param.sequence = 0 then return none
        let name ← m.strings.get param.name
        return some (param.sequence, name)) =
      (.ok ((names.zipIdx sequence).map fun entry => some (entry.2, entry.1)) : Except Malformed _) := by
  induction names generalizing start sequence with
  | nil => rfl
  | cons name names ih =>
    obtain ⟨⟨param, hparam, hsequence, hname⟩, hrest⟩ := hat
    rw [List.length_cons] at hlt
    have hmod : param.sequence = sequence := by
      rw [hsequence]
      exact Nat.mod_eq_of_lt (by omega)
    have hread := ih hrest (List.forall_mem_cons.mp hnames).2 (by omega)
      (by omega)
    rw [hnames name List.mem_cons_self] at hname
    rw [List.length_cons, List.range'_succ, List.mapM_cons, hread, hparam]
    change ((if param.sequence = 0 then _ else _) >>= _) = _
    rw [if_neg (by omega), hname, hmod]
    rfl

lemma paramNames {flags : Nat} {sig : MethodSig} (hmethod : m.MethodAt row flags name sig names)
    (hnames : ∀ name ∈ names, Text.untilZero name = name) (hlt : names.length < 0x10000) :
    Work.paramNames m row = .ok ((names.zipIdx 1).map fun entry => (entry.2, entry.1)).reverse := by
  obtain ⟨-, start, hrows, hat⟩ := hmethod
  rw [Work.paramNames, hrows]
  change ((List.range' start names.length).mapM _ >>= fun rows =>
    (pure (rows.filterMap id).reverse : Except Malformed _)) = _
  rw [paramRows hat hnames (by omega) (by omega)]
  change Except.ok _ = _
  rw [filterMap_id_map_some]

lemma paramName_eq (hname : names[place]? = some name) :
    paramName ((names.zipIdx 1).map fun entry => (entry.2, entry.1)).reverse place = name := by
  have hkeys : (((names.zipIdx 1).map fun entry => (entry.2, entry.1)).map Prod.fst).Nodup := by
    have hsnd : ((names.zipIdx 1).map fun entry => (entry.2, entry.1)).map Prod.fst =
        (names.zipIdx 1).map Prod.snd := by
      rw [List.map_map]
      rfl
    rw [hsnd, List.zipIdx_map_snd]
    exact List.nodup_range'
  have hmem : (place + 1, name) ∈ (names.zipIdx 1).map fun entry => (entry.2, entry.1) := by
    refine List.mem_map.mpr ⟨(name, place + 1), ?_, rfl⟩
    rw [Nat.add_comm place 1]
    exact List.mk_add_mem_zipIdx_iff_getElem?.mpr hname
  rw [paramName, lookup_reverse_of_mem hkeys hmem]
  rfl

lemma storedProperty_yields (h : plan.StoredIn x m) (hknown : plan.Known location ids P found)
    (hs : s.arities = plan.arities) (hseen : s.Seen scope) {getter setter : Bool}
    (hfits : (PlanMember.property name type getter setter).Fits s)
    (hproperty : m.PropertyAt row name (type.sig x plan.kinds)) :
    Yields P (storedProperty found ⟨m, location⟩ scope ⟨row, getter, setter⟩) fun property =>
      (Member.property property).unplaced = (PlanMember.property name type getter setter).member ids s := by
  obtain ⟨hname, htype, -⟩ := hfits
  obtain ⟨property, blob, hrow, hstored, hblob, hwrite⟩ := hproperty
  rw [storedName hname] at hstored
  have hread : PropertySig.ofBlob blob = .ok ⟨true, type.sig x plan.kinds, []⟩ := by
    rw [PropertySig.ofBlob_write hwrite, PropertySig.reduced,
      PlanType.reduced_sig h.rows (arities_lt hs) type htype]
    rfl
  unfold storedProperty
  refine (Yields.check hrow).bind_eq ?_
  refine (Yields.check hstored).bind_eq ?_
  refine (Yields.check hblob).bind_eq ?_
  refine (Yields.check hread).bind_eq ?_
  refine (h.planned_yields hknown hs hseen (PlanType.inScope_of_fits htype)).bind fun use huse => ?_
  refine (h.storedAttributes_yields (.property row)).bind fun attributes hattributes => ?_
  refine Yields.graph.bind fun g _ => .pure ?_
  subst huse hattributes
  rfl

lemma methodSig_reduced (h : plan.StoredIn x m) (hs : s.arities = plan.arities)
    (hreturns : returns.fitsReturn s = true)
    (hparams : ∀ param ∈ params, param.2.fits s = true) :
    (PlanMember.methodSig x plan.kinds generics returns params).reduced =
      PlanMember.methodSig x plan.kinds generics returns params := by
  have hreturn : (returns.sig x plan.kinds).reduced = returns.sig x plan.kinds := by
    rcases PlanType.fitsReturn_cases hreturns with rfl | hfits
    · rfl
    · exact PlanType.reduced_sig h.rows (arities_lt hs) returns hfits
  have hsigs : params.map (fun param => param.2.sig x plan.kinds) =
      PlanType.sigEach x plan.kinds (params.map Prod.snd) := by
    rw [PlanType.sigEach_eq_map, List.map_map]
    rfl
  have heach : PlanType.fitsEach s (params.map Prod.snd) = true := by
    rw [PlanType.fitsEach_iff]
    intro type htype
    obtain ⟨param, hparam, rfl⟩ := List.mem_map.mp htype
    exact hparams param hparam
  rw [PlanMember.methodSig, MethodSig.reduced, hreturn, hsigs,
    PlanType.reducedEach_sigEach h.rows (arities_lt hs) _ heach]

lemma named_params (params : List (String × PlanType)) (use : PlanType → Use) :
    ((params.map fun param => use param.2).zipIdx.map fun entry =>
        (⟨paramName (((params.map (·.1)).zipIdx 1).map fun entry => (entry.2, entry.1)).reverse entry.2,
          entry.1⟩ : Parameter)) =
      params.map fun param => ⟨param.1, use param.2⟩ := by
  refine List.ext_getElem? fun place => ?_
  rw [List.getElem?_map, List.getElem?_zipIdx, List.getElem?_map, List.getElem?_map]
  cases hparam : params[place]? with
  | none => rfl
  | some param =>
    have hname : (params.map (·.1))[place]? = some param.1 := by
      rw [List.getElem?_map, hparam]
      rfl
    simp only [Option.map_some, Nat.zero_add, paramName_eq hname]

lemma storedMethod_yields (h : plan.StoredIn x m) (hknown : plan.Known location ids P found)
    (hs : s.arities = plan.arities) (hseen : s.Seen scope)
    (hfits : (PlanMember.method name generics returns params).Fits s)
    (hmethod : m.MethodAt row Builder.ordinaryFlags name
      (PlanMember.methodSig x plan.kinds generics returns params) (params.map (·.1)))
    (hgenerics : m.GenericsOf x plan.kinds (.method row) generics) :
    Yields P (storedMethod found ⟨m, location⟩ scope row) fun method =>
      (Member.method method).unplaced = (PlanMember.method name generics returns params).member ids s := by
  obtain ⟨hname, hparamFits, hreturns, hcount, hparams⟩ := hfits
  have hs' : (s.inMethod generics).arities = plan.arities := hs
  have hnames : ∀ name ∈ params.map (·.1), Text.untilZero name = name := by
    intro name hname
    obtain ⟨param, hparam, rfl⟩ := List.mem_map.mp hname
    exact storedName (hparams param hparam).1
  have hparamNames := paramNames hmethod hnames (by rwa [List.length_map])
  obtain ⟨⟨method, blob, hrow, -, hstored, hblob, hwrite⟩, -⟩ := hmethod
  rw [storedName hname] at hstored
  have hread : MethodSig.ofBlob blob = .ok (PlanMember.methodSig x plan.kinds generics returns params) := by
    rw [MethodSig.ofBlob_write hwrite, h.methodSig_reduced hs' hreturns fun param hparam => (hparams param hparam).2]
  unfold storedMethod
  refine (Yields.check hrow).bind_eq ?_
  refine (Yields.check hstored).bind_eq ?_
  refine (Yields.check hblob).bind_eq ?_
  refine (Yields.check hread).bind_eq ?_
  refine (Yields.check (genericNames hgenerics hparamFits)).bind_eq ?_
  have hseen' : (s.inMethod generics).Seen { scope with methodParams := generics.map PlanParam.name } :=
    ⟨hseen.typeParams, rfl⟩
  refine (h.planned_yields hknown hs' hseen' (PlanType.inScope_of_fitsReturn hreturns)).bind_eq ?_
  refine (Yields.check hparamNames).bind_eq ?_
  have htypes : List.Forall₂ (fun sig param => Yields P
        (signatureFinding found ⟨m, location⟩ { scope with methodParams := generics.map PlanParam.name } sig)
        fun use => use = PlanType.use ids (s.inMethod generics) param.2)
      (params.map fun param => param.2.sig x plan.kinds) params := by
    rw [List.forall₂_map_left_iff]
    refine List.forall₂_same.mpr fun param hparam => ?_
    exact h.planned_yields hknown hs' hseen' (PlanType.inScope_of_fits (hparams param hparam).2)
  refine (Yields.mapM_eq htypes).bind_eq ?_
  refine (h.storedGenerics_yields hknown hs' hseen' hgenerics hparamFits).bind_eq ?_
  refine (h.storedAttributes_yields (.method row)).bind_eq ?_
  refine Yields.graph.bind fun g _ => .pure ?_
  rw [PlanMember.member, Member.unplaced]
  dsimp only
  rw [named_params params (PlanType.use ids (s.inMethod generics))]
  rfl

end Plan.StoredIn

namespace PlanMember

/-- The properties among members by their first methods, where methods are counted from `start`
and properties from `row`. -/
def accessed : Nat → Nat → List PlanMember → List (Nat × Accessed)
  | _, _, [] => []
  | start, row, .property _ _ getter setter :: members =>
    (start, ⟨row, getter, setter⟩) :: accessed (start + (getter.toNat + setter.toNat)) (row + 1) members
  | start, row, .method .. :: members => accessed (start + 1) row members

lemma le_of_mem_accessed {entry : Nat × Accessed} (h : entry ∈ accessed method property members) :
    method ≤ entry.1 := by
  induction members generalizing method property with
  | nil => cases h
  | cons member members ih =>
    cases member with
    | property name type getter setter =>
      rcases List.mem_cons.mp h with rfl | hrest
      · exact Nat.le_refl _
      · have hle := ih hrest
        omega
    | method name generics returns params =>
      have hle := ih (h : entry ∈ accessed (method + 1) property members)
      omega

lemma lookup_accessed_of_lt (h : row < method) : (accessed method property members).lookup row = none := by
  rw [List.lookup_eq_none_iff]
  intro entry hentry
  have hle := le_of_mem_accessed hentry
  rw [bne_iff_ne]
  omega

end PlanMember

/-- A property has an accessor, so its methods take rows. -/
lemma PlanMember.Fits.accessors_pos {getter setter : Bool}
    (h : (PlanMember.property name type getter setter).Fits s) : 0 < getter.toNat + setter.toNat := by
  obtain ⟨-, -, h⟩ := h
  cases getter
  · cases setter
    · cases h
    · decide
  · rw [Bool.toNat_true]
    omega

/-- Behind the rows of a member the others are looked up. -/
lemma PlanMember.lookup_accessed_cons {member : PlanMember} (hfits : member.Fits s) {start found : Nat}
    (h : start + member.methodCount ≤ found) :
    (accessed start row (member :: members)).lookup found =
      (accessed (start + member.methodCount) (row + member.propertyCount) members).lookup found := by
  cases member with
  | property name type getter setter =>
    have hpos := hfits.accessors_pos
    rw [methodCount] at h
    have hne : (found == start) = false := beq_eq_false_iff_ne.mpr (by omega)
    rw [accessed, List.lookup_cons, hne]
    rfl
  | method name generics returns params => rfl

lemma PlanMember.nodup_accessed (hfits : ∀ member ∈ members, member.Fits s) (method property : Nat) :
    ((accessed method property members).map Prod.fst).Nodup := by
  induction members generalizing method property with
  | nil => exact List.nodup_nil
  | cons member members ih =>
    have hrest := ih (List.forall_mem_cons.mp hfits).2
    cases member with
    | property name type getter setter =>
      have hpos := (hfits _ List.mem_cons_self).accessors_pos
      refine List.nodup_cons.mpr ⟨fun hmem => ?_, hrest _ _⟩
      obtain ⟨entry, hentry, heq⟩ := List.mem_map.mp hmem
      have hle := le_of_mem_accessed hentry
      omega
    | method name generics returns params => exact hrest _ _

namespace Plan.StoredIn

variable {properties : List (Nat × Accessed)}

/-- The first accessor of a planned property stands in the first of its rows. -/
lemma accessedBy_eq (hfits : ∀ member ∈ members, member.Fits s)
    (hat : m.MembersAt x plan.kinds method property members) {type : Nat}
    (hproperties : m.propertiesOf type = List.range' property (members.map PlanMember.propertyCount).sum) :
    accessedBy m type = PlanMember.accessed method property members := by
  unfold accessedBy
  rw [hproperties]
  clear hproperties
  induction members generalizing method property with
  | nil => rfl
  | cons member members ih =>
    obtain ⟨hmember, hrest⟩ := hat
    have hothers := ih (List.forall_mem_cons.mp hfits).2 hrest
    have hfit := hfits member List.mem_cons_self
    cases member with
    | property name type getter setter =>
      obtain ⟨-, haccessors, -⟩ := hmember
      rw [List.map_cons, List.sum_cons, PlanMember.propertyCount, Nat.add_comm 1, List.range'_succ]
      refine (List.filterMap_cons_some (b := (method, ⟨property, getter, setter⟩)) ?_).trans
        (congrArg _ hothers)
      dsimp only
      rw [haccessors]
      obtain ⟨-, -, hsome⟩ := hfit
      cases getter <;> cases setter <;> simp at hsome ⊢
    | method name generics returns params =>
      rw [List.map_cons, List.sum_cons, PlanMember.propertyCount, Nat.zero_add]
      exact hothers

/-- An accessor makes no member of its own. -/
lemma storedMember_special (hnone : properties.lookup row = none) (hspecial : m.SpecialAt row) :
    Yields P (storedMember found ⟨m, location⟩ scope properties row) (· = none) := by
  obtain ⟨method, text, hrow, hflags, hname⟩ := hspecial
  rw [storedMember, hnone]
  refine (Yields.check hrow).bind_eq ?_
  refine (Yields.check hname).bind_eq ?_
  rw [if_pos (by rw [hflags]; rfl)]
  exact .pure rfl

lemma isSpecial_ordinary (h : isPlainName name = true) : isSpecial Builder.ordinaryFlags name = false := by
  have hstart : name.startsWith "<" = false := by
    rw [String.startsWith_string_eq_false_iff]
    intro hbegins
    exact notMem_of_isPlainName h (by decide) (hbegins.subset List.mem_cons_self)
  rw [isSpecial, hstart]
  rfl

section

variable (h : plan.StoredIn x m) (hknown : plan.Known location ids P found)

include h hknown

lemma storedMember_yields (hs : s.arities = plan.arities) (hseen : s.Seen scope) {member : PlanMember}
    (hfits : member.Fits s) (hat : m.MemberAt x plan.kinds method property member) (hlookup : ∀ row, method ≤ row →
      properties.lookup row = (PlanMember.accessed method property (member :: members)).lookup row) :
    Yields P ((List.range' method member.methodCount).mapM (storedMember found ⟨m, location⟩ scope properties))
      fun rows => (rows.filterMap id).map Member.unplaced = [member.member ids s] := by
  cases member with
  | property name type getter setter =>
    obtain ⟨hproperty, -, hspecial⟩ := hat
    have hpos := hfits.accessors_pos
    obtain ⟨count, hcount⟩ : ∃ count, getter.toNat + setter.toNat = count + 1 :=
      ⟨getter.toNat + setter.toNat - 1, by omega⟩
    have hfirst : properties.lookup method = some ⟨property, getter, setter⟩ := by
      rw [hlookup method (Nat.le_refl method), PlanMember.accessed, List.lookup_cons, beq_self_eq_true]
    -- The rows behind the first are accessors that no property begins with.
    have hothers : ∀ row ∈ List.range' (method + 1) count,
        Yields P (storedMember found ⟨m, location⟩ scope properties row) (· = none) := by
      intro row hrow
      rw [List.mem_range'_1] at hrow
      refine storedMember_special ?_ (hspecial row (List.mem_range'_1.mpr (by omega)))
      have hne : (row == method) = false := beq_eq_false_iff_ne.mpr (by omega)
      rw [hlookup row (by omega), PlanMember.accessed, List.lookup_cons, hne]
      exact PlanMember.lookup_accessed_of_lt (by omega)
    rw [PlanMember.methodCount, hcount, List.range'_succ, List.mapM_cons]
    have hstored : Yields P (storedMember found ⟨m, location⟩ scope properties method) fun row =>
        row.map Member.unplaced = some ((PlanMember.property name type getter setter).member ids s) := by
      rw [storedMember, hfirst]
      exact (h.storedProperty_yields hknown hs hseen hfits hproperty).bind fun p hp => .pure (congrArg some hp)
    refine hstored.bind fun row hrow => ?_
    refine (Yields.mapM_eq (h := fun _ => none) (List.forall₂_same.mpr hothers)).bind fun rows hrows => .pure ?_
    obtain ⟨p, rfl, hp⟩ := Option.map_eq_some_iff.mp hrow
    have hnone : rows.filterMap id = [] := by
      rw [hrows, List.filterMap_map, List.filterMap_eq_nil_iff]
      exact fun _ _ => rfl
    change (p :: rows.filterMap id).map Member.unplaced = _
    rw [hnone, List.map_cons, hp]
    rfl
  | method name generics returns params =>
    obtain ⟨hmethod, hgenerics⟩ := hat
    have hnone : properties.lookup method = none := by
      rw [hlookup method (Nat.le_refl method), PlanMember.accessed]
      exact PlanMember.lookup_accessed_of_lt (by omega)
    have hstored := h.storedMethod_yields hknown hs hseen hfits hmethod hgenerics
    obtain ⟨⟨row, blob, hrow, hflags, hname, -⟩, -⟩ := hmethod
    have hyields : Yields P (storedMember found ⟨m, location⟩ scope properties method) fun row =>
        row.map Member.unplaced = some ((PlanMember.method name generics returns params).member ids s) := by
      rw [storedMember, hnone]
      refine (Yields.check hrow).bind_eq ?_
      refine (Yields.check hname).bind_eq ?_
      rw [storedName hfits.1, hflags, isSpecial_ordinary hfits.1]
      exact hstored.bind fun p hp => .pure (congrArg some hp)
    rw [PlanMember.methodCount, List.range'_one, List.mapM_cons]
    refine hyields.bind fun row hrow => ?_
    refine (Yields.pure (Q := (· = [])) rfl).bind fun rows hrows => .pure ?_
    obtain ⟨p, rfl, hp⟩ := Option.map_eq_some_iff.mp hrow
    subst hrows
    exact congrArg (fun member => [member]) hp

lemma storedMembers_yields (hs : s.arities = plan.arities) (hseen : s.Seen scope)
    (hfits : ∀ member ∈ members, member.Fits s) (hat : m.MembersAt x plan.kinds method property members)
    (hlookup : ∀ row, method ≤ row →
      properties.lookup row = (PlanMember.accessed method property members).lookup row) :
    Yields P ((List.range' method (members.map PlanMember.methodCount).sum).mapM
        (storedMember found ⟨m, location⟩ scope properties))
      fun rows => (rows.filterMap id).map Member.unplaced = members.map (PlanMember.member ids s) := by
  induction members generalizing method property with
  | nil => exact .pure rfl
  | cons member members ih =>
    obtain ⟨hmember, hrest⟩ := hat
    have hfirst := h.storedMember_yields hknown hs hseen (hfits member List.mem_cons_self) hmember hlookup
    have hothers := ih (List.forall_mem_cons.mp hfits).2 hrest
      fun row hrow => (hlookup row (by omega)).trans
        (PlanMember.lookup_accessed_cons (hfits member List.mem_cons_self) hrow)
    rw [List.map_cons, List.sum_cons, ← List.range'_append_1, List.mapM_append]
    refine hfirst.bind fun rows hrows => hothers.bind fun more hmore => .pure ?_
    rw [List.filterMap_append, List.map_append, hrows, hmore]
    rfl

/-- A declaration of the plan gets the shape that is planned for it. -/
lemma storedShape_yields (hd : plan.decls[place]? = some d) (hmethods : scope.methodParams = []) :
    Yields P (storedShape found ⟨m, location⟩ scope d.kind (place + 1)) fun shape =>
      shape.unplaced = plan.shape ids d := by
  have hfits := fits_at hd
  have hat := h.types place d hd
  obtain ⟨tokens, htokens, hbases⟩ := h.basesOf hd
  obtain ⟨method, property, hrows, hproperties, hmembers⟩ := hat.members
  have hseen : (d.scope plan.arities).Seen { scope with typeParams := d.typeParams } := ⟨rfl, hmethods⟩
  have hlookup : ∀ row, method ≤ row → (accessedBy m (place + 1)).reverse.lookup row =
      (PlanMember.accessed method property d.members).lookup row := by
    intro row _
    rw [accessedBy_eq hfits.members hmembers hproperties]
    exact lookup_reverse (PlanMember.nodup_accessed hfits.members method property) row
  unfold storedShape
  rw [if_neg hfits.kind]
  refine (Yields.check (genericNames hat.generics hfits.generics)).bind_eq ?_
  refine (h.storedGenerics_yields hknown rfl hseen hat.generics hfits.generics).bind fun generics hgenerics => ?_
  refine (Yields.check htokens).bind_eq ?_
  refine (Yields.mapM_eq (forall₂_of_mem hbases fun token type htype htoken =>
    h.tokenFinding_yields hknown rfl hseen (hfits.bases type htype) htoken)).bind fun bases hbases => ?_
  refine (Yields.check hrows).bind_eq ?_
  refine (h.storedMembers_yields hknown rfl hseen hfits.members hmembers hlookup).bind fun members hmembers => ?_
  refine (h.storedAttributes_yields (.type (place + 1))).bind fun attributes hattributes => .pure ?_
  subst hgenerics hbases hattributes
  rw [Shape.unplaced]
  dsimp only
  rw [hmembers]
  rfl

end

end Plan.StoredIn

end Resolution

end TypeAtlas
