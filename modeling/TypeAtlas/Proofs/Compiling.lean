import Mathlib
import TypeAtlas.Proofs.Building
import TypeAtlas.Proofs.Interning
import TypeAtlas.Proofs.Plan

/-!
Building a module from a plan. Types are defined in the order of the plan, so that the
declaration at a place stands in the row after it. Main statement: a module that was built
holds every declaration of its plan, row by row (`Plan.build_spec`).
-/

namespace TypeAtlas

open Metadata

variable {owner : GenericOwner} {generics : List PlanParam} {types : List PlanType} {method property : Nat}
  {d : PlanDecl}

/-- The types of another assembly that a built module refers to. -/
structure Externals where
  object : Token
  valueType : Token
  nullable : Token
  decimal : Token

/-- The assembly that defines them. -/
def coreAssembly : String := "System.Runtime"

namespace Externals

/-- A builtin type in a signature. One without a code of its own is referenced by name. -/
def sig (x : Externals) (type : Builtin) : SigType :=
  if type = .decimal then .valueType x.decimal else .builtin type

def build : Build Externals := do
  let object ← Builder.externalType coreAssembly "System" "Object"
  let valueType ← Builder.externalType coreAssembly "System" "ValueType"
  let nullable ← Builder.externalType coreAssembly "System" "Nullable`1"
  let decimal ← Builder.externalType coreAssembly "System" "Decimal"
  return { object, valueType, nullable, decimal }

end Externals

def Plan.kinds (plan : Plan) : List Kind := plan.decls.map PlanDecl.kind

section Build

variable (x : Externals) (kinds : List Kind)

namespace PlanType

mutual

/-- The type as it stands in signatures. -/
def sig (x : Externals) (kinds : List Kind) : PlanType → SigType
  | .builtin type => x.sig type
  | .nullable type => .inst x.nullable true [x.sig type]
  | .param .type place => .typeParam place
  | .param .method place => .methodParam place
  | .declared place args =>
    let isValue := kinds[place]? == some .structType
    if args.isEmpty then
      if isValue then .valueType (.definition (place + 1)) else .classType (.definition (place + 1))
    else .inst (.definition (place + 1)) isValue (sigEach x kinds args)
  | .array element rank =>
    if rank = 1 then .vector (sig x kinds element) else .array (sig x kinds element) rank

def sigEach (x : Externals) (kinds : List Kind) : List PlanType → List SigType
  | [] => []
  | type :: types => sig x kinds type :: sigEach x kinds types

end

lemma sigEach_eq_map (types : List PlanType) : sigEach x kinds types = types.map (sig x kinds) := by
  induction types with
  | nil => rfl
  | cons type types ih => rw [sigEach, ih, List.map_cons]

/-- The place of a declaration that is used without arguments. -/
def plainPlace? : PlanType → Option Nat
  | .declared place [] => some place
  | _ => none

/-- The token of a base or a constraint. -/
def token (type : PlanType) : Build Token :=
  match type.plainPlace? with
  | some place => pure (.definition (place + 1))
  | none => Builder.typeSpecification (type.sig x kinds)

end PlanType

def PlanParam.build (owner : GenericOwner) (param : PlanParam) : Build Unit := do
  let row ← Builder.addGenericParam owner param.name
  param.constraints.forM fun type => do Builder.addConstraint row (← type.token x kinds)

/-- The signature of a method. -/
def PlanMember.methodSig (generics : List PlanParam) (returns : PlanType)
    (params : List (String × PlanType)) : MethodSig :=
  ⟨true, generics.length, returns.sig x kinds, params.map fun param => param.2.sig x kinds⟩

def PlanMember.build : PlanMember → Build Unit
  | .property name type getter setter => do
    let _ ← Builder.addProperty name (type.sig x kinds) getter setter
  | .method name generics returns params => do
    let row ← Builder.addMethod Builder.ordinaryFlags name (methodSig x kinds generics returns params)
      (params.map (·.1))
    generics.forM (PlanParam.build x kinds (.method row))

namespace PlanDecl

/-- The class that a class extends, if one is named first among its bases. -/
def base? (d : PlanDecl) : Option PlanType :=
  match d.kind, d.bases with
  | .classType, .declared place args :: _ =>
    if kinds[place]? = some .classType then some (.declared place args) else none
  | _, _ => none

/-- The bases that are no class it extends. -/
def interfaces (d : PlanDecl) : List PlanType := if (d.base? kinds).isSome then d.bases.tail else d.bases

/-- Public; interfaces are marked as such and abstract. -/
def flags (d : PlanDecl) : Nat := if d.kind = .interfaceType then 0xa1 else 0x01

/-- The token of the type that is extended. Where none is named, the kind decides. -/
def baseToken (d : PlanDecl) : Build (Option Token) :=
  match d.kind with
  | .classType =>
    match d.base? kinds with
    | some type => some <$> type.token x kinds
    | none => pure (some x.object)
  | .structType => pure (some x.valueType)
  | .interfaceType | .enumType => pure none

/-- A declaration without its members. -/
def buildHeader (d : PlanDecl) : Build Unit := do
  let base ← d.baseToken x kinds
  let row ← Builder.defineType d.flags d.ns (markArity d.name d.arity) base
  d.generics.forM (PlanParam.build x kinds (.type row))
  (d.interfaces kinds).forM fun type => do Builder.addInterface row (← type.token x kinds)

def build (d : PlanDecl) : Build Unit := do
  d.buildHeader x kinds
  d.members.forM (PlanMember.build x kinds)

end PlanDecl

end Build

/-- The module of a plan. -/
def Plan.build (plan : Plan) : Build Unit := do
  let x ← Externals.build
  plan.decls.forM (PlanDecl.build x plan.kinds)

/-! What stands in a module that was built. -/

namespace Metadata.Module

variable (m : Module) (x : Externals) (kinds : List Kind)

/-- A token that stands for a base or a constraint. -/
def TokenFor (token : Token) (type : PlanType) : Prop :=
  match type.plainPlace? with
  | some place => token = .definition (place + 1)
  | none => ∃ row, token = .specification row ∧ m.Specifies row (type.sig x kinds)

def GenericsAt : Nat → List PlanParam → Prop
  | _, [] => True
  | row, param :: params =>
    (∃ found, m.genericParam row = .ok found ∧
      m.strings.get found.name = .ok (Text.untilZero param.name)) ∧
    List.Forall₂ (m.TokenFor x kinds) (m.constraintsOf row) param.constraints ∧
    GenericsAt (row + 1) params

def GenericsOf (owner : GenericOwner) (generics : List PlanParam) : Prop :=
  ∃ start, m.genericParamsOf owner = List.range' start generics.length ∧
    m.GenericsAt x kinds start generics

end Metadata.Module

def PlanMember.methodCount : PlanMember → Nat
  | .property _ _ getter setter => getter.toNat + setter.toNat
  | .method .. => 1

def PlanMember.propertyCount : PlanMember → Nat
  | .property .. => 1
  | .method .. => 0

namespace Metadata.Module

variable (m : Module) (x : Externals) (kinds : List Kind)

/-- A member whose methods begin at row `method` and whose property, if it is one, stands at row
`property`. -/
def MemberAt (method property : Nat) : PlanMember → Prop
  | .property name type getter setter =>
    m.PropertyAt property name (type.sig x kinds) ∧
      m.accessorsOf property = (if getter then some method else none,
        if setter then some (method + getter.toNat) else none) ∧
      ∀ row ∈ List.range' method (getter.toNat + setter.toNat), m.SpecialAt row
  | .method name generics returns params =>
    m.MethodAt method Builder.ordinaryFlags name
        (PlanMember.methodSig x kinds generics returns params) (params.map (·.1)) ∧
      m.GenericsOf x kinds (.method method) generics

def MembersAt : Nat → Nat → List PlanMember → Prop
  | _, _, [] => True
  | method, property, member :: members =>
    m.MemberAt x kinds method property member ∧
      MembersAt (method + member.methodCount) (property + member.propertyCount) members

/-- What a declaration has for its base. -/
def BaseFor (d : PlanDecl) (base : Option Token) : Prop :=
  match d.kind with
  | .classType =>
    match d.base? kinds with
    | some type => ∃ token, base = some token ∧ m.TokenFor x kinds token type
    | none => base = some x.object
  | .structType => base = some x.valueType
  | .interfaceType | .enumType => base = none

structure HeaderAt (row : Nat) (d : PlanDecl) : Prop where
  definition : ∃ found, m.typeDef row = .ok found ∧ found.flags = d.flags ∧
    m.strings.get found.ns = .ok (Text.untilZero d.ns) ∧
    m.strings.get found.name = .ok (Text.untilZero (markArity d.name d.arity)) ∧
    m.BaseFor x kinds d found.base
  generics : m.GenericsOf x kinds (.type row) d.generics
  interfaces : List.Forall₂ (m.TokenFor x kinds) (m.interfacesOf row) (d.interfaces kinds)

/-- A declaration in a row of the type definitions. -/
structure TypeAt (row : Nat) (d : PlanDecl) : Prop extends m.HeaderAt x kinds row d where
  members : ∃ method property,
    m.methodsOf row = .ok (List.range' method (d.members.map PlanMember.methodCount).sum) ∧
    m.propertiesOf row = List.range' property (d.members.map PlanMember.propertyCount).sum ∧
    m.MembersAt x kinds method property d.members

/-- All rows of a module. -/
def whole : Done :=
  ⟨m.typeDefs.size, m.typeDefs.size, m.typeDefs.size, m.methods.size, m.methods.size, m.genericParams.size,
    m.properties.size⟩

/-- Rows that are complete are among the others that are. -/
structure Done.Below (done done' : Done) : Prop where
  headers : done.headers ≤ done'.headers
  interfaces : done.interfaces ≤ done'.interfaces
  bodies : done.bodies ≤ done'.bodies
  signatures : done.signatures ≤ done'.signatures
  methods : done.methods ≤ done'.methods
  generics : done.generics ≤ done'.generics
  properties : done.properties ≤ done'.properties

lemma Extends.mono {m m' : Module} {done done' : Done} (h : m.Extends done' m') (hle : done.Below done') :
    m.Extends done m' :=
  { h with
    methodsOf := fun type htype => h.methodsOf type (Nat.le_trans htype hle.bodies)
    propertiesOf := fun type htype => h.propertiesOf type (Nat.le_trans htype hle.bodies)
    paramsOf := fun method hmethod => h.paramsOf method (Nat.le_trans hmethod hle.signatures)
    genericParamsOf := by
      intro owner howner
      cases owner with
      | type row => exact h.genericParamsOf (.type row) (Nat.le_trans howner hle.headers)
      | method row => exact h.genericParamsOf (.method row) (Nat.le_trans howner hle.methods)
    constraintsOf := fun param hparam => h.constraintsOf param (Nat.le_trans hparam hle.generics)
    interfacesOf := fun type htype => h.interfacesOf type (Nat.le_trans htype hle.interfaces)
    accessorsOf := fun property hproperty => h.accessorsOf property (Nat.le_trans hproperty hle.properties) }

lemma Extends.whole_below {m m' : Module} {done : Done} (h : m.Extends done m') :
    m.whole.Below m'.whole :=
  ⟨h.typeDefs.length_le, h.typeDefs.length_le, h.typeDefs.length_le, h.methods.length_le, h.methods.length_le,
    h.genericParams.length_le, h.properties.length_le⟩

/-- Everything that belongs to a row of the module is there. -/
structure Done.Whole (done : Done) (m : Module) : Prop where
  signatures : m.methods.size ≤ done.signatures
  methods : m.methods.size ≤ done.methods
  generics : m.genericParams.size ≤ done.generics
  properties : m.properties.size ≤ done.properties

namespace Extends

variable {m m' : Module} {x : Externals} {kinds : List Kind} {done : Done} {row : Nat}

section

variable (h : m.Extends done m')

include h

lemma tokenFor {token : Token} {type : PlanType}
    (htoken : m.TokenFor x kinds token type) : m'.TokenFor x kinds token type := by
  unfold TokenFor at htoken ⊢
  split at htoken
  · exact htoken
  · obtain ⟨row, rfl, hspecifies⟩ := htoken
    exact ⟨row, rfl, h.specifies hspecifies⟩

lemma tokensFor {tokens : List Token} (htokens : List.Forall₂ (m.TokenFor x kinds) tokens types) :
    List.Forall₂ (m'.TokenFor x kinds) tokens types :=
  htokens.imp fun _ _ => h.tokenFor

lemma genericsAt (hdone : m.genericParams.size ≤ done.generics)
    (hgenerics : m.GenericsAt x kinds row generics) : m'.GenericsAt x kinds row generics := by
  induction generics generalizing row with
  | nil => trivial
  | cons param params ih =>
    obtain ⟨⟨found, hrow, hname⟩, hconstraints, hrest⟩ := hgenerics
    have hle : row ≤ done.generics := Nat.le_trans (row_le_size hrow).2 hdone
    refine ⟨⟨found, row_of_prefix h.genericParams hrow, h.getString hname⟩, ?_, ih hrest⟩
    rw [h.constraintsOf row hle]
    exact h.tokensFor hconstraints

lemma genericsOf (hdone : m.genericParams.size ≤ done.generics) (howner : done.covers owner)
    (hgenerics : m.GenericsOf x kinds owner generics) : m'.GenericsOf x kinds owner generics := by
  obtain ⟨start, hrows, hat⟩ := hgenerics
  exact ⟨start, (h.genericParamsOf owner howner).trans hrows, h.genericsAt hdone hat⟩

lemma memberAt (hdone : done.Whole m) {member : PlanMember} (hmember : m.MemberAt x kinds method property member) :
    m'.MemberAt x kinds method property member := by
  cases member with
  | property name type getter setter =>
    obtain ⟨hproperty, haccessors, hspecial⟩ := hmember
    obtain ⟨_, _, hrow, -⟩ := id hproperty
    have hle : property ≤ done.properties := Nat.le_trans (row_le_size hrow).2 hdone.properties
    exact ⟨h.propertyAt hproperty, (h.accessorsOf property hle).trans haccessors,
      fun row hmem => h.specialAt (hspecial row hmem)⟩
  | method name generics returns params =>
    obtain ⟨hmethod, hgenerics⟩ := hmember
    obtain ⟨⟨_, _, hrow, -⟩, -⟩ := id hmethod
    have hle : method ≤ m.methods.size := (row_le_size hrow).2
    have hcovers : done.covers (.method method) := Nat.le_trans hle hdone.methods
    exact ⟨h.methodAt (Nat.le_trans hle hdone.signatures) hmethod,
      h.genericsOf hdone.generics hcovers hgenerics⟩

lemma membersAt (hdone : done.Whole m) {members : List PlanMember}
    (hmembers : m.MembersAt x kinds method property members) : m'.MembersAt x kinds method property members := by
  induction members generalizing method property with
  | nil => trivial
  | cons member members ih => exact ⟨h.memberAt hdone hmembers.1, ih hmembers.2⟩

lemma baseFor {base : Option Token} (hbase : m.BaseFor x kinds d base) : m'.BaseFor x kinds d base := by
  unfold BaseFor at hbase ⊢
  cases hkind : d.kind with
  | classType =>
    rw [hkind] at hbase
    cases hfound : d.base? kinds with
    | some type =>
      rw [hfound] at hbase
      obtain ⟨token, htoken, hfor⟩ := hbase
      exact ⟨token, htoken, h.tokenFor hfor⟩
    | none =>
      rw [hfound] at hbase
      exact hbase
  | structType | interfaceType | enumType =>
    rw [hkind] at hbase
    exact hbase

lemma headerAt (hgenerics : m.genericParams.size ≤ done.generics) (hheaders : row ≤ done.headers)
    (hinterfaces : row ≤ done.interfaces) (hheader : m.HeaderAt x kinds row d) : m'.HeaderAt x kinds row d where
  definition := by
    obtain ⟨found, hrow, hflags, hns, hname, hbase⟩ := hheader.definition
    exact ⟨found, row_of_prefix h.typeDefs hrow, hflags, h.getString hns, h.getString hname, h.baseFor hbase⟩
  generics := by
    have hcovers : done.covers (.type row) := hheaders
    exact h.genericsOf hgenerics hcovers hheader.generics
  interfaces := by
    rw [h.interfacesOf row hinterfaces]
    exact h.tokensFor hheader.interfaces

/-- A type that is complete stays what it is. -/
lemma typeAt (hdone : done.Whole m) (hheaders : row ≤ done.headers)
    (hinterfaces : row ≤ done.interfaces) (hbodies : row ≤ done.bodies) (htype : m.TypeAt x kinds row d) :
    m'.TypeAt x kinds row d where
  toHeaderAt := h.headerAt hdone.generics hheaders hinterfaces htype.toHeaderAt
  members := by
    obtain ⟨method, property, hmethods, hproperties, hat⟩ := htype.members
    exact ⟨method, property, (h.methodsOf row hbodies).trans hmethods,
      (h.propertiesOf row hbodies).trans hproperties, h.membersAt hdone hat⟩

end

end Extends

end Metadata.Module

namespace Metadata.Builder

variable {x : Externals} {kinds : List Kind} {b b' : Builder} {arities : List Nat} {row : Nat}

lemma run_forM_cons_ok {α : Type} {f : α → Build Unit} {first : α} {rest : List α}
    (h : run ((first :: rest).forM f) b = (.ok (), b')) :
    ∃ c, run (f first) b = (.ok (), c) ∧ run (rest.forM f) c = (.ok (), b') := by
  obtain ⟨_, c, hfirst, hrest⟩ := run_bind_ok h
  exact ⟨c, hfirst, hrest⟩

/-- Nothing that is complete is still missing. -/
structure Within (b : Builder) (done : Module.Done) : Prop where
  signatures : done.signatures ≤ b.module.methods.size
  methods : done.methods ≤ b.module.methods.size
  generics : done.generics ≤ b.module.genericParams.size
  properties : done.properties ≤ b.module.properties.size

lemma Within.appends {done : Module.Done} {ms ps : Nat} (hwithin : b.Within done) (h : b.Appends done b' ms ps) :
    b'.Within done where
  signatures := Nat.le_trans hwithin.signatures (by simp [h.methods])
  methods := Nat.le_trans hwithin.methods (by simp [h.methods])
  generics := Nat.le_trans hwithin.generics h.generics
  properties := Nat.le_trans hwithin.properties (by simp [h.properties])

section Steps

variable (done : Module.Done) (hb : b.Sound)

include hb

lemma token_spec {type : PlanType} {token : Token} (h : run (type.token x kinds) b = (.ok token, b')) :
    b.Advances done b' ∧ b.Leaves b' ∧ b'.module.genericParams = b.module.genericParams ∧
      b'.module.constraints = b.module.constraints ∧ b'.module.interfaces = b.module.interfaces ∧
      b'.module.TokenFor x kinds token type := by
  unfold PlanType.token at h
  unfold Module.TokenFor
  cases hplace : type.plainPlace? with
  | some place =>
    rw [hplace] at h
    obtain ⟨htoken, rfl⟩ := Prod.mk.inj h
    cases htoken
    exact ⟨⟨hb, .refl done _⟩, ⟨rfl, rfl, rfl, rfl⟩, rfl, rfl, rfl, rfl⟩
  | none =>
    rw [hplace] at h
    obtain ⟨hb', ⟨blobs, specs, rfl⟩, hfor⟩ := typeSpecification_spec done hb h
    exact ⟨hb', ⟨rfl, rfl, rfl, rfl⟩, rfl, rfl, rfl, hfor⟩

omit hb in
/-- Tokens that are attached to a row one by one. What is attached to it is read by `list`, and
`add` attaches one more token in any builder that was left with the rows of `b`. -/
lemma attach_spec (list : Module → List Token) (before : List PlanType) {c : Builder}
    {add : Token → Build Unit}
    (hlist : ∀ m m', m'.constraints = m.constraints → m'.interfaces = m.interfaces → list m' = list m)
    (hadd : ∀ {d e : Builder} {token : Token}, d.Sound → b.Leaves d →
      d.module.genericParams = b.module.genericParams → run (add token) d = (.ok (), e) →
      d.Advances done e ∧ d.Leaves e ∧ e.module.genericParams = d.module.genericParams ∧
        list e.module = list d.module ++ [token]) (hc : c.Sound) (hleaves : b.Leaves c)
    (hparams : c.module.genericParams = b.module.genericParams)
    (hbefore : List.Forall₂ (c.module.TokenFor x kinds) (list c.module) before)
    (h : run (types.forM fun type => do add (← type.token x kinds)) c = (.ok (), b')) :
    c.Advances done b' ∧ b.Leaves b' ∧ b'.module.genericParams = b.module.genericParams ∧
      List.Forall₂ (b'.module.TokenFor x kinds) (list b'.module) (before ++ types) := by
  induction types generalizing c before with
  | nil =>
    obtain ⟨-, rfl⟩ := Prod.mk.inj h
    rw [List.append_nil]
    exact ⟨⟨hc, .refl done _⟩, hleaves, hparams, hbefore⟩
  | cons type types ih =>
    obtain ⟨e, hfirst, hrest⟩ := run_forM_cons_ok h
    obtain ⟨token, d, htoken, hone⟩ := run_bind_ok hfirst
    obtain ⟨hd, hleaves', hparams', hconstraints, hinterfaces, hfor⟩ := token_spec done hc htoken
    obtain ⟨he, hleaves'', hparams'', hnew⟩ :=
      hadd hd.sound (hleaves.trans hleaves') (hparams'.trans hparams) hone
    have hnow : List.Forall₂ (e.module.TokenFor x kinds) (list e.module) (before ++ [type]) := by
      rw [hnew, hlist _ _ hconstraints hinterfaces]
      exact List.rel_append (he.grows.tokensFor (hd.grows.tokensFor hbefore))
        (.cons (he.grows.tokenFor hfor) .nil)
    obtain ⟨hb', hleft, hsame, hall⟩ := ih _ he.sound (hleaves.trans (hleaves'.trans hleaves''))
      (hparams''.trans (hparams'.trans hparams)) hnow hrest
    rw [List.append_assoc] at hall
    exact ⟨hd.trans (he.trans hb'), hleft, hsame, hall⟩

/-- The constraints of a parameter that has none yet. -/
lemma constraints_spec (hrow : row ≤ b.module.genericParams.size) (hdone : done.generics < row)
    (hnone : b.module.constraintsOf row = [])
    (h : run (types.forM fun type => do addConstraint row (← type.token x kinds)) b = (.ok (), b')) :
    b.Advances done b' ∧ b.Leaves b' ∧ b'.module.genericParams = b.module.genericParams ∧
      List.Forall₂ (b'.module.TokenFor x kinds) (b'.module.constraintsOf row) types := by
  refine attach_spec done (·.constraintsOf row) [] (fun m m' hconstraints _ => ?_)
    (fun hd _ hparams hone => ?_) hb (.refl b) rfl (hnone ▸ .nil) h
  · rw [Module.constraintsOf, hconstraints]
    rfl
  · obtain ⟨he, ⟨constraints, rfl⟩, hlist⟩ := addConstraint_spec done hd (by rwa [hparams]) hdone hone
    exact ⟨he, ⟨rfl, rfl, rfl, rfl⟩, rfl, hlist⟩

/-- The interfaces of a type that has none yet. -/
lemma interfaces_spec (hrow : row ≤ b.module.typeDefs.size) (hdone : done.interfaces < row)
    (hnone : b.module.interfacesOf row = [])
    (h : run (types.forM fun type => do addInterface row (← type.token x kinds)) b = (.ok (), b')) :
    b.Advances done b' ∧ b.Leaves b' ∧ b'.module.genericParams = b.module.genericParams ∧
      List.Forall₂ (b'.module.TokenFor x kinds) (b'.module.interfacesOf row) types := by
  refine attach_spec done (·.interfacesOf row) [] (fun m m' _ hinterfaces => ?_)
    (fun hd hleaves _ hone => ?_) hb (.refl b) rfl (hnone ▸ .nil) h
  · rw [Module.interfacesOf, hinterfaces]
    rfl
  · obtain ⟨he, ⟨interfaces, rfl⟩, hlist⟩ :=
      addInterface_spec done hd (by rwa [hleaves.typeDefs]) hdone hone
    exact ⟨he, ⟨rfl, rfl, rfl, rfl⟩, rfl, hlist⟩

section Generics

variable (howner : b.module.defines owner) (hcovers : ¬done.covers owner)
  (hdone : done.generics ≤ b.module.genericParams.size)

include howner hcovers hdone

lemma generics_spec (h : run (generics.forM (PlanParam.build x kinds owner)) b = (.ok (), b')) :
    b.Advances done b' ∧ b.Leaves b' ∧
      b'.module.genericParams.size = b.module.genericParams.size + generics.length ∧
      (Module.rowsWhere (·.owner == owner) 1 b'.module.genericParams.toList).map (·.1) =
        (Module.rowsWhere (·.owner == owner) 1 b.module.genericParams.toList).map (·.1) ++
          List.range' (b.module.genericParams.size + 1) generics.length ∧
      b'.module.GenericsAt x kinds (b.module.genericParams.size + 1) generics := by
  induction generics generalizing b done with
  | nil =>
    obtain ⟨-, rfl⟩ := Prod.mk.inj h
    exact ⟨⟨hb, .refl done _⟩, ⟨rfl, rfl, rfl, rfl⟩, rfl, (List.append_nil _).symm, trivial⟩
  | cons param params ih =>
    obtain ⟨d, hfirst, hrest⟩ := run_forM_cons_ok h
    obtain ⟨row, c, hadd, hconstrain⟩ := run_bind_ok hfirst
    obtain ⟨hc, rfl, hframe, ⟨found, hfound, hname⟩, hrows⟩ :=
      addGenericParam_spec done hb howner hcovers hadd
    obtain ⟨hsize, hleaves, hconstraints⟩ : c.module.genericParams.size = b.module.genericParams.size + 1 ∧
        b.Leaves c ∧ c.module.constraints = b.module.constraints := by
      obtain ⟨strings, rows, hsize, rfl⟩ := hframe
      exact ⟨hsize, ⟨rfl, rfl, rfl, rfl⟩, rfl⟩
    have hnone : c.module.constraintsOf (b.module.genericParams.size + 1) = [] := by
      rw [Module.constraintsOf, hconstraints]
      exact hb.closed.constraintsOf (Nat.lt_succ_self _)
    obtain ⟨hd, hleaves', hparams, hall⟩ := constraints_spec done hc.sound (Nat.le_of_eq hsize.symm)
      (Nat.lt_succ_of_le hdone) hnone hconstrain
    have hleft := hleaves.trans hleaves'
    have howner' : d.module.defines owner := by
      unfold Module.defines at howner ⊢
      rwa [hleft.typeDefs, hleft.methods]
    have hsize' : d.module.genericParams.size = b.module.genericParams.size + 1 := by rw [hparams, hsize]
    obtain ⟨hb', hleaves'', hcount, hlist, hat⟩ :=
      ih done hd.sound howner' hcovers (by omega) hrest
    -- The parameters that follow leave the constraints of this one alone.
    have hcovers' : ¬Module.Done.covers { done with generics := b.module.genericParams.size + 1 } owner := by
      cases owner <;> exact hcovers
    obtain ⟨hkeeps, -⟩ := ih _ hd.sound howner' hcovers' (Nat.le_of_eq hsize'.symm) hrest
    rw [hsize'] at hcount hlist hat
    refine ⟨hc.trans (hd.trans hb'), hleft.trans hleaves'', ?_, ?_, ⟨found, ?_, ?_⟩, ?_, hat⟩
    · rw [hcount, List.length_cons]
      omega
    · rw [hlist, hparams, hrows, List.append_assoc, List.length_cons, List.range'_succ]
      rfl
    · exact Module.row_of_prefix (hd.trans hb').grows.genericParams hfound
    · exact (hd.trans hb').grows.getString hname
    · rw [hkeeps.grows.constraintsOf _ (Nat.le_refl _)]
      exact hb'.grows.tokensFor hall

omit hb howner hcovers hdone in
lemma accessorsOf_eq {m : Module} {getter setter : Bool}
    (h : accessorRows m property = accessorRowsFrom getter setter method property) :
    m.accessorsOf property = (if getter then some method else none,
      if setter then some (method + getter.toNat) else none) := by
  unfold Module.accessorsOf
  unfold accessorRows at h
  rw [h]
  cases getter <;> cases setter <;> rfl

/-- The generic parameters of an owner that has none yet, in the order of the plan. -/
lemma genericsOf_spec (hnone : Module.rowsWhere (·.owner == owner) 1 b.module.genericParams.toList = [])
    (hcount : generics.length ≤ 0x10000) (h : run (generics.forM (PlanParam.build x kinds owner)) b = (.ok (), b')) :
    b.Advances done b' ∧ b.Leaves b' ∧ b.module.genericParams.size ≤ b'.module.genericParams.size ∧
      b'.module.GenericsOf x kinds owner generics := by
  obtain ⟨hb', hleaves, hsize, hrows, hat⟩ := generics_spec done hb howner hcovers hdone h
  rw [hnone, List.map_nil, List.nil_append] at hrows
  have hlength : (Module.rowsWhere (·.owner == owner) 1 b'.module.genericParams.toList).length =
      generics.length := by
    have hmap := congrArg List.length hrows
    rwa [List.length_map, List.length_range'] at hmap
  refine ⟨hb', hleaves, by omega, _, ?_, hat⟩
  rw [hb'.sound.tidy.genericParamsOf (by omega), hrows]

end Generics

section Members

variable {scope : PlanScope} (hbodies : done.bodies < b.module.typeDefs.size) (hwithin : b.Within done)

include hbodies hwithin

/-- A member goes behind those of the open type. -/
lemma member_spec {member : PlanMember} (hfits : member.Fits scope)
    (h : run (member.build x kinds) b = (.ok (), b')) :
    b.Appends done b' member.methodCount member.propertyCount ∧
      b'.module.MemberAt x kinds (b.module.methods.size + 1) (b.module.properties.size + 1) member := by
  cases member with
  | property name type getter setter =>
    obtain ⟨row, c, hadd, hlast⟩ := run_bind_ok h
    obtain ⟨-, rfl⟩ := Prod.mk.inj hlast
    obtain ⟨hc, rfl, hat, haccessors, hspecial⟩ :=
      addProperty_spec done hb hbodies hwithin.signatures hwithin.properties hadd
    exact ⟨hc, hat, accessorsOf_eq haccessors, hspecial⟩
  | method name generics returns params =>
    obtain ⟨row, c, hadd, hrest⟩ := run_bind_ok h
    obtain ⟨hc, rfl, hparams, hat⟩ := addMethod_spec done hb hbodies hwithin.signatures hadd
    have howner : c.module.defines (.method (b.module.methods.size + 1)) := Nat.le_of_eq hc.methods.symm
    have hnew : ¬b.module.defines (.method (b.module.methods.size + 1)) := Nat.not_succ_le_self _
    have hnone := hb.closed.rowsWhere_owner hnew
    rw [← hparams] at hnone
    have hcovers : ¬done.covers (.method (b.module.methods.size + 1)) :=
      Nat.not_le.mpr (Nat.lt_succ_of_le hwithin.methods)
    have hgenerics := (hwithin.appends hc).generics
    obtain ⟨hb', hleaves, hgrown, hof⟩ :=
      genericsOf_spec done hc.sound howner hcovers hgenerics hnone hfits.2.1.1 hrest
    -- The generic parameters leave the method itself and the lists of the type alone.
    have hcovers' : ¬Module.Done.covers { done with
        bodies := b.module.typeDefs.size, signatures := b.module.methods.size + 1 }
        (.method (b.module.methods.size + 1)) := hcovers
    obtain ⟨hkeeps, -⟩ := genericsOf_spec _ hc.sound howner hcovers' hgenerics hnone hfits.2.1.1 hrest
    exact ⟨hc.trans (hb'.appends hleaves hgrown (hkeeps.grows.propertiesOf _ (Nat.le_of_eq hc.types))),
      hkeeps.grows.methodAt (Nat.le_refl _) hat, hof⟩

/-- Members go behind those of the open type, in order. -/
lemma members_spec {members : List PlanMember} (hfits : ∀ member ∈ members, member.Fits scope)
    (h : run (members.forM (PlanMember.build x kinds)) b = (.ok (), b')) :
    b.Appends done b' (members.map PlanMember.methodCount).sum (members.map PlanMember.propertyCount).sum ∧
      b'.module.MembersAt x kinds (b.module.methods.size + 1) (b.module.properties.size + 1) members := by
  induction members generalizing b done with
  | nil =>
    obtain ⟨-, rfl⟩ := Prod.mk.inj h
    exact ⟨Advances.appends ⟨hb, .refl done _⟩ (.refl b) (Nat.le_refl _) rfl, trivial⟩
  | cons member members ih =>
    obtain ⟨c, hfirst, hrest⟩ := run_forM_cons_ok h
    obtain ⟨hc, hat⟩ := member_spec done hb hbodies hwithin (hfits member List.mem_cons_self) hfirst
    have hfits' : ∀ other ∈ members, other.Fits scope := fun other hmem =>
      hfits other (List.mem_cons_of_mem member hmem)
    have hbodies' : done.bodies < c.module.typeDefs.size := Nat.lt_of_lt_of_eq hbodies hc.types.symm
    obtain ⟨hb', hats⟩ := ih done hc.sound hbodies' (hwithin.appends hc) hfits' hrest
    -- Members that follow leave this one alone.
    obtain ⟨hkeeps, -⟩ := ih
      { done with
        signatures := c.module.methods.size, methods := c.module.methods.size
        generics := c.module.genericParams.size, properties := c.module.properties.size }
      hc.sound hbodies' ⟨Nat.le_refl _, Nat.le_refl _, Nat.le_refl _, Nat.le_refl _⟩ hfits' hrest
    rw [hc.methods, hc.properties, Nat.add_right_comm, Nat.add_right_comm b.module.properties.size] at hats
    exact ⟨hc.trans hb',
      hkeeps.grows.memberAt ⟨Nat.le_refl _, Nat.le_refl _, Nat.le_refl _, Nat.le_refl _⟩ hat, hats⟩

end Members

lemma baseToken_spec {base : Option Token} (h : run (d.baseToken x kinds) b = (.ok base, b')) :
    b.Advances done b' ∧ b.Leaves b' ∧ b'.module.genericParams = b.module.genericParams ∧
      b'.module.BaseFor x kinds d base := by
  unfold PlanDecl.baseToken at h
  unfold Module.BaseFor
  cases hkind : d.kind with
  | classType =>
    rw [hkind] at h
    cases hbase : d.base? kinds with
    | some type =>
      rw [hbase] at h
      obtain ⟨token, c, htoken, hlast⟩ := run_bind_ok h
      obtain ⟨hresult, rfl⟩ := Prod.mk.inj hlast
      cases hresult
      obtain ⟨hc, hleaves, hparams, -, -, hfor⟩ := token_spec done hb htoken
      exact ⟨hc, hleaves, hparams, token, rfl, hfor⟩
    | none =>
      rw [hbase] at h
      obtain ⟨hresult, rfl⟩ := Prod.mk.inj h
      exact ⟨⟨hb, .refl done _⟩, .refl b, rfl, (Except.ok.inj hresult).symm⟩
  | structType | interfaceType | enumType =>
    rw [hkind] at h
    obtain ⟨hresult, rfl⟩ := Prod.mk.inj h
    exact ⟨⟨hb, .refl done _⟩, .refl b, rfl, (Except.ok.inj hresult).symm⟩

/-- A declaration gets the next row of the type definitions, and has no members at first. -/
lemma header_spec (hfits : d.Fits arities) (h : run (d.buildHeader x kinds) b = (.ok (), b')) :
    b.Advances b.module.whole b' ∧ b'.module.typeDefs.size = b.module.typeDefs.size + 1 ∧
      b'.module.methods.size = b.module.methods.size ∧
      b'.module.properties.size = b.module.properties.size ∧
      b.module.genericParams.size ≤ b'.module.genericParams.size ∧
      b'.module.HeaderAt x kinds (b.module.typeDefs.size + 1) d ∧
      b'.module.methodsOf (b.module.typeDefs.size + 1) = .ok [] ∧
      b'.module.propertiesOf (b.module.typeDefs.size + 1) = [] := by
  obtain ⟨base, c, hbase, h1⟩ := run_bind_ok h
  obtain ⟨hc, hleaves, hparams, hfor⟩ := baseToken_spec b.module.whole hb hbase
  obtain ⟨row, e, hdefine, h2⟩ := run_bind_ok h1
  have htypes : b.module.whole.bodies ≤ c.module.typeDefs.size := by
    rw [hleaves.typeDefs]
    exact Nat.le_refl _
  obtain ⟨he, hrow, hframe, ⟨found, hfound, hflags, hsame, hns, hname⟩, hmethods, hproperties, hinterfaces,
    hnone⟩ := defineType_spec b.module.whole hc.sound htypes hdefine
  obtain ⟨hsize, hmethod, hproperty, hparams'⟩ : e.module.typeDefs.size = row ∧
      e.module.methods.size = b.module.methods.size ∧
      e.module.properties.size = b.module.properties.size ∧
      e.module.genericParams.size = b.module.genericParams.size := by
    obtain ⟨strings, types, hsize, rfl⟩ := hframe
    exact ⟨hsize, congrArg Array.size hleaves.methods, congrArg Array.size hleaves.properties,
      congrArg Array.size hparams⟩
  rw [hleaves.typeDefs] at hrow
  subst hrow
  -- Generic parameters leave the empty lists of the type alone.
  have howner : e.module.defines (.type (b.module.typeDefs.size + 1)) := Nat.le_of_eq hsize.symm
  have hcovers : ¬b.module.whole.covers (.type (b.module.typeDefs.size + 1)) := Nat.not_succ_le_self _
  obtain ⟨_, f, hgenerics, h3⟩ := run_bind_ok h2
  obtain ⟨hf, hleaves', hgrown, hof⟩ := genericsOf_spec b.module.whole he.sound howner hcovers
    (Nat.le_of_eq hparams'.symm) hnone hfits.generics.1 hgenerics
  have hcovers' : ¬Module.Done.covers { b.module.whole with
      interfaces := b.module.typeDefs.size + 1, bodies := b.module.typeDefs.size + 1 }
      (.type (b.module.typeDefs.size + 1)) := hcovers
  obtain ⟨hkeeps, -⟩ := genericsOf_spec _ he.sound howner hcovers' (Nat.le_of_eq hparams'.symm) hnone
    hfits.generics.1 hgenerics
  -- Interfaces leave the generic parameters alone, and the lists that are still empty.
  have hsize' : f.module.typeDefs.size = b.module.typeDefs.size + 1 := by rw [hleaves'.typeDefs, hsize]
  have hempty : f.module.interfacesOf (b.module.typeDefs.size + 1) = [] := by
    rw [hkeeps.grows.interfacesOf _ (Nat.le_refl _), hinterfaces]
  obtain ⟨hb', hleaves'', hparams'', hlist⟩ := interfaces_spec b.module.whole hf.sound
    (Nat.le_of_eq hsize'.symm) (Nat.lt_succ_self _) hempty h3
  obtain ⟨hkeeps', -⟩ := interfaces_spec
    { b.module.whole with
      headers := b.module.typeDefs.size + 1, bodies := b.module.typeDefs.size + 1
      generics := f.module.genericParams.size }
    hf.sound (Nat.le_of_eq hsize'.symm) (Nat.lt_succ_self _) hempty h3
  have hcovered : Module.Done.covers { b.module.whole with
      headers := b.module.typeDefs.size + 1, bodies := b.module.typeDefs.size + 1
      generics := f.module.genericParams.size } (.type (b.module.typeDefs.size + 1)) := Nat.le_refl _
  have hlater := hf.trans hb'
  refine ⟨hc.trans (he.trans hlater), ?_, ?_, ?_, ?_, ⟨?_, ?_, hlist⟩, ?_, ?_⟩
  · rw [hleaves''.typeDefs, hsize']
  · rw [hleaves''.methods, hleaves'.methods, hmethod]
  · rw [hleaves''.properties, hleaves'.properties, hproperty]
  · rw [hparams'']
    omega
  · exact ⟨found, Module.row_of_prefix hlater.grows.typeDefs hfound, hflags, hlater.grows.getString hns,
      hlater.grows.getString hname, hsame ▸ (he.trans hlater).grows.baseFor hfor⟩
  · exact hkeeps'.grows.genericsOf (Nat.le_refl _) hcovered hof
  · rw [hkeeps'.grows.methodsOf _ (Nat.le_refl _), hkeeps.grows.methodsOf _ (Nat.le_refl _), hmethods]
  · rw [hkeeps'.grows.propertiesOf _ (Nat.le_refl _), hkeeps.grows.propertiesOf _ (Nat.le_refl _), hproperties]

/-- A declaration gets the next row of the type definitions. -/
lemma decl_spec (hfits : d.Fits arities) (h : run (d.build x kinds) b = (.ok (), b')) :
    b.Advances b.module.whole b' ∧ b'.module.typeDefs.size = b.module.typeDefs.size + 1 ∧
      b'.module.TypeAt x kinds (b.module.typeDefs.size + 1) d := by
  obtain ⟨_, c, hheader, hmembers⟩ := run_bind_ok h
  obtain ⟨hc, htypes, hmethod, hproperty, hgrown, hat, hmethods, hproperties⟩ := header_spec hb hfits hheader
  have hopen : b.module.typeDefs.size < c.module.typeDefs.size := by omega
  have hmethod' := Nat.le_of_eq hmethod.symm
  have hproperty' := Nat.le_of_eq hproperty.symm
  obtain ⟨hb', hats⟩ := members_spec b.module.whole hc.sound hopen ⟨hmethod', hmethod', hgrown, hproperty'⟩
    hfits.members hmembers
  -- Members leave the rest of the type alone.
  obtain ⟨hkeeps, -⟩ := members_spec
    { b.module.whole with
      headers := b.module.typeDefs.size + 1, interfaces := b.module.typeDefs.size + 1
      generics := c.module.genericParams.size }
    hc.sound hopen ⟨hmethod', hmethod', Nat.le_refl _, hproperty'⟩ hfits.members hmembers
  refine ⟨hc.trans hb'.toAdvances, hb'.types.trans htypes,
    hkeeps.grows.headerAt (Nat.le_refl _) (Nat.le_refl _) (Nat.le_refl _) hat, _, _, ?_, ?_, hats⟩
  · exact htypes ▸ hb'.methodsOf [] (htypes ▸ hmethods)
  · rw [← htypes, hb'.propertiesOf, htypes, hproperties, List.nil_append]

/-- Declarations get the rows that come next, in order. -/
lemma decls_spec {decls : List PlanDecl} (hfits : ∀ d ∈ decls, d.Fits arities)
    (h : run (decls.forM (PlanDecl.build x kinds)) b = (.ok (), b')) :
    b.Advances b.module.whole b' ∧
      b'.module.typeDefs.size = b.module.typeDefs.size + decls.length ∧
      ∀ place d, decls[place]? = some d →
        b'.module.TypeAt x kinds (b.module.typeDefs.size + place + 1) d := by
  induction decls generalizing b with
  | nil =>
    obtain ⟨-, rfl⟩ := Prod.mk.inj h
    exact ⟨⟨hb, .refl _ _⟩, rfl, fun place d hd => by cases hd⟩
  | cons first decls ih =>
    obtain ⟨c, hfirst, hrest⟩ := run_forM_cons_ok h
    obtain ⟨hc, hsize, hat⟩ := decl_spec hb (hfits first List.mem_cons_self) hfirst
    obtain ⟨hb', hsize', hats⟩ := ih hc.sound (List.forall_mem_cons.mp hfits).2 hrest
    refine ⟨hc.trans ⟨hb'.sound, hb'.grows.mono hc.grows.whole_below⟩, ?_, fun place d hd => ?_⟩
    · rw [hsize', hsize, List.length_cons]
      omega
    · cases place with
      | zero =>
        cases hd
        have hle : b.module.typeDefs.size + 1 ≤ c.module.typeDefs.size := Nat.le_of_eq hsize.symm
        exact hb'.grows.typeAt ⟨Nat.le_refl _, Nat.le_refl _, Nat.le_refl _, Nat.le_refl _⟩ hle hle hle hat
      | succ place =>
        have hplace : b.module.typeDefs.size + (place + 1) + 1 = c.module.typeDefs.size + place + 1 := by
          omega
        rw [hplace]
        exact hats place d hd

end Steps

end Metadata.Builder

/-- A module that holds the declarations of a plan, row by row. -/
structure Plan.StoredIn (plan : Plan) (x : Externals) (m : Module) : Prop where
  attributes : m.attributes = #[]
  count : m.typeDefs.size = plan.decls.length
  object : m.External x.object coreAssembly "System" "Object"
  valueType : m.External x.valueType coreAssembly "System" "ValueType"
  nullable : m.External x.nullable coreAssembly "System" "Nullable`1"
  decimal : m.External x.decimal coreAssembly "System" "Decimal"
  rows : x.nullable.row ≤ 4 ∧ x.decimal.row ≤ 4
  types : ∀ place d, plan.decls[place]? = some d → m.TypeAt x plan.kinds (place + 1) d

namespace Externals

/-- The names of the types and of what holds them. -/
def names : StringHeap :=
  StringHeap.internAll {} [coreAssembly, "Object", "System", "ValueType", "Nullable`1", "Decimal"]

/-- The module before its first declaration. -/
def start (assembly : String) : Module where
  assembly
  strings := names
  assemblyRefs := #[⟨1⟩]
  typeRefs := #[⟨.assembly 1, 16, 23⟩, ⟨.assembly 1, 30, 23⟩, ⟨.assembly 1, 40, 23⟩, ⟨.assembly 1, 51, 23⟩]

lemma run_build (assembly : String) :
    Builder.run build (.ofAssembly assembly) =
      (.ok ⟨.reference 1, .reference 2, .reference 3, .reference 4⟩,
        { module := start assembly
          references := [((.assembly 1, "System", "Decimal"), 4), ((.assembly 1, "System", "Nullable`1"), 3),
            ((.assembly 1, "System", "ValueType"), 2), ((.assembly 1, "System", "Object"), 1)] }) := by
  cbv

lemma isExternal {assembly name : String} {row offset : Nat}
    (hrow : (start assembly).typeRef row = .ok ⟨.assembly 1, offset, 23⟩)
    (hname : names.get offset = .ok (Text.untilZero name)) :
    (start assembly).External (.reference row) coreAssembly "System" name := by
  have hns : names.get 23 = .ok (Text.untilZero "System") := by decide +kernel
  have hcore : names.get 1 = .ok (Text.untilZero coreAssembly) := by decide +kernel
  exact ⟨row, 1, ⟨1⟩, rfl, ⟨_, hrow, rfl, hns, hname⟩, rfl, hcore⟩

lemma sound_start (assembly : String) {b : Builder} (hmodule : b.module = start assembly)
    (hopen : b.openType = none) : b.Sound where
  tidy := by
    rw [hmodule]
    exact { (Builder.Sound.initial assembly).tidy with strings := (StringHeap.Orderly.initial.internAll _).sound }
  closed := by
    rw [hmodule]
    exact { (Builder.Sound.initial assembly).closed with }
  opened := fun type h => by rw [hopen] at h; cases h

end Externals

/-- A module that was built from a plan holds its declarations. -/
lemma Plan.build_spec (plan : Plan) {assembly : String} {b : Builder}
    (h : Builder.run plan.build (.ofAssembly assembly) = (.ok (), b)) :
    ∃ x, plan.StoredIn x b.module := by
  obtain ⟨x, c, hexternals, hdecls⟩ := Builder.run_bind_ok h
  rw [Externals.run_build] at hexternals
  obtain ⟨hx, rfl⟩ := Prod.mk.inj hexternals
  cases hx
  obtain ⟨hb, hsize, hats⟩ := Builder.decls_spec (Externals.sound_start assembly rfl rfl) plan.fits hdecls
  simp only [Externals.start, Array.size_empty, Nat.zero_add] at hsize hats
  refine ⟨_, hb.grows.attributes, hsize, ?_, ?_, ?_, ?_, ⟨by decide, by decide⟩, hats⟩
  all_goals exact hb.grows.isExternal (Externals.isExternal rfl (by decide +kernel))

end TypeAtlas
