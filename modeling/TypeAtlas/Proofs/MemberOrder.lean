import TypeAtlas.Proofs.Completeness
import TypeAtlas.Proofs.LoadedShapes
import TypeAtlas.Proofs.MemberRows
import TypeAtlas.Proofs.StoredShape

/-!
Members in the order of the calls that added them. Main statement: the declaration of a type in a
module that was built by calls, once it is loaded, has the generic parameters, properties and
methods that the calls on it added, in call order, and nothing else.
-/

namespace TypeAtlas

open Metadata Work

variable {role : RowRole} {start row : Nat} {name : String}

/-- What a member is called and what it offers. -/
inductive MemberOutline where
  | property (name : String) (getter setter : Bool)
  | method (name : String) (params : List String)
deriving DecidableEq

def Member.outline : Member → MemberOutline
  | .property p => .property p.name p.getter p.setter
  | .method m => .method m.name (m.params.map (·.name))

namespace Metadata

variable {call : BuildCall}

/-- The names of a method's parameters. Those behind the names that were given are numbered. -/
def paramTexts (sig : MethodSig) (names : List String) : List String :=
  (List.range sig.params.length).map fun i => names.getD i ("arg" ++ toString i)

namespace BuildCall

def outline? : BuildCall → Option MemberOutline
  | addMethod flags name sig names =>
    if flags &&& 0x0800 = 0 ∧ flags &&& 0x1000 = 0 ∧ name.toList.head? ≠ some '<' then
      some (.method name (paramTexts sig names))
    else none
  | addProperty name _ getter setter => if getter || setter then some (.property name getter setter) else none
  | _ => none

def genericFor? (owner : GenericOwner) : BuildCall → Option String
  | addGenericParam other name => if other = owner then some name else none
  | _ => none

def names : BuildCall → List String
  | addGenericParam _ name => [name]
  | addMethod _ name _ names => name :: names
  | addConstructor _ names => names
  | addProperty name _ _ _ => [name]
  | _ => []

end BuildCall

/-- The member that a row of the methods stands for. -/
def RowRole.outline? : RowRole → Option MemberOutline
  | .method flags name sig names =>
    if isSpecial flags name then none else some (.method name (paramTexts sig names))
  | .leading name getter setter => some (.property name getter setter)
  | .trailing => none

def RowRole.names : RowRole → List String
  | .method _ name _ names => name :: names
  | .leading name _ _ => [name]
  | .trailing => []

lemma and_two_pow_eq_zero (flags i : Nat) : flags &&& 2 ^ i = 0 ↔ flags.testBit i = false := by
  constructor
  · intro hzero
    have hbit := congrArg (Nat.testBit · i) hzero
    simpa [Nat.testBit_and, Nat.testBit_two_pow] using hbit
  · intro hbit
    apply Nat.eq_of_testBit_eq
    intro j
    rw [Nat.testBit_and, Nat.testBit_two_pow, Nat.zero_testBit]
    by_cases hij : i = j
    · subst hij
      simp [hbit]
    · simp [hij]

lemma startsWith_angle (name : String) : name.startsWith "<" = true ↔ name.toList.head? = some '<' := by
  rw [String.startsWith_string_iff]
  cases name.toList with
  | nil => simp
  | cons c cs => simp [List.cons_prefix_cons, eq_comm]

lemma isSpecial_eq_false (flags : Nat) (name : String) : isSpecial flags name = false ↔
    flags &&& 0x0800 = 0 ∧ flags &&& 0x1000 = 0 ∧ name.toList.head? ≠ some '<' := by
  have hspecial := and_two_pow_eq_zero flags 11
  have hruntime := and_two_pow_eq_zero flags 12
  rw [ne_eq, ← startsWith_angle, Bool.not_eq_true]
  simp only [Nat.reducePow] at hspecial hruntime
  rw [hspecial, hruntime, isSpecial, Bool.or_eq_false_iff, Bool.or_eq_false_iff, and_assoc]

/-- The rows that a call adds stand for the member that it adds. -/
lemma filterMap_roles (call : BuildCall) : call.roles.filterMap RowRole.outline? = call.outline?.toList := by
  cases call with
  | addMethod flags name sig names =>
    cases hspecial : isSpecial flags name with
    | false =>
      rw [BuildCall.outline?, if_pos ((isSpecial_eq_false flags name).mp hspecial)]
      simp [BuildCall.roles, RowRole.outline?, hspecial]
    | true =>
      have hnot := mt (isSpecial_eq_false flags name).mpr (by simp [hspecial])
      rw [BuildCall.outline?, if_neg hnot]
      simp [BuildCall.roles, RowRole.outline?, hspecial]
  | addConstructor params names => rfl
  | addProperty name type getter setter => cases getter <;> cases setter <;> rfl
  | _ => rfl

lemma filterMap_flatMap_roles (calls : List BuildCall) :
    (calls.flatMap BuildCall.roles).filterMap RowRole.outline? = calls.filterMap BuildCall.outline? := by
  induction calls with
  | nil => rfl
  | cons call calls ih =>
    rw [List.flatMap_cons, List.filterMap_append, ih, filterMap_roles]
    cases houtline : call.outline? <;> simp [houtline]

lemma filterMap_genericFor (owner : GenericOwner) (calls : List BuildCall) :
    calls.filterMap (BuildCall.genericFor? owner) =
      ((calls.filterMap BuildCall.generic?).filter (·.1 == owner)).map (·.2) := by
  induction calls with
  | nil => rfl
  | cons call calls ih =>
    cases call with
    | addGenericParam other name =>
      by_cases howner : other = owner <;> simp [BuildCall.genericFor?, BuildCall.generic?, howner, ih]
    | _ => exact ih

lemma mem_callsOn {type types : Nat} {calls : List BuildCall} (h : call ∈ callsOn type types calls) :
    call ∈ calls := by
  induction calls generalizing types with
  | nil => cases h
  | cons first calls ih =>
    rcases List.mem_append.mp h with hfirst | hrest
    · split at hfirst
      · exact List.mem_singleton.mp hfirst ▸ List.mem_cons_self
      · cases hfirst
    · exact List.mem_cons_of_mem first (ih hrest)

/-- Rows are named by their calls, apart from constructors. -/
lemma mem_names_of_mem_roles (hrole : role ∈ call.roles) (hname : name ∈ role.names) :
    name ∈ call.names ∨ name = ".ctor" := by
  cases call with
  | addMethod flags text sig names =>
    obtain rfl := List.mem_singleton.mp hrole
    exact .inl hname
  | addConstructor params names =>
    obtain rfl := List.mem_singleton.mp hrole
    exact (List.mem_cons.mp hname).symm
  | addProperty text type getter setter =>
    rcases List.mem_append.mp hrole with hleading | htrailing
    · split at hleading
      · obtain rfl := List.mem_singleton.mp hleading
        exact .inl hname
      · cases hleading
    · split at htrailing
      · obtain rfl := List.mem_singleton.mp htrailing
        cases hname
      · cases htrailing
  | _ => cases hrole

end Metadata

namespace Metadata.Module

variable {named : List (GenericOwner × String)}

/-! Generic parameters. -/

lemma mem_rowsWhere {α : Type} {p : α → Bool} {xs : List α} {entry : Nat × α} (h : entry ∈ rowsWhere p start xs) :
    ∃ i, entry.1 = start + i ∧ xs[i]? = some entry.2 := by
  induction xs generalizing start with
  | nil => cases h
  | cons x xs ih =>
    have hrest : entry ∈ rowsWhere p (start + 1) xs → ∃ i, entry.1 = start + i ∧ (x :: xs)[i]? = some entry.2 := by
      intro hmem
      obtain ⟨i, hplace, hi⟩ := ih hmem
      exact ⟨i + 1, by omega, hi⟩
    unfold rowsWhere at h
    split at h
    · rcases List.mem_cons.mp h with rfl | hmem
      · exact ⟨0, rfl, rfl⟩
      · exact hrest hmem
    · exact hrest h

variable {m : Module} {owner : GenericOwner}

lemma forall₂_rowsWhere {rows : List GenericParamRow} (h : List.Forall₂ m.Names rows named) (start : Nat) :
    List.Forall₂ (fun entry pair => m.Names entry.2 pair) (rowsWhere (·.owner == owner) start rows)
      (named.filter (·.1 == owner)) := by
  induction h generalizing start with
  | nil => exact .nil
  | @cons row pair rows named hfirst _ ih =>
    rw [rowsWhere, List.filter_cons, ← hfirst.1]
    split
    · exact .cons hfirst (ih _)
    · exact ih _

/-- The generic parameters of an owner are found under the names they were added with. -/
lemma genericNames_of_names (htidy : m.Tidy) (h : List.Forall₂ m.Names m.genericParams.toList named)
    (hnames : ∀ pair ∈ named, Text.untilZero pair.2 = pair.2)
    (hcount : (named.filter (·.1 == owner)).length ≤ 0x10000) :
    m.genericNames owner = .ok ((named.filter (·.1 == owner)).map (·.2)) := by
  have hrows : List.Forall₂ (fun entry pair => m.Names entry.2 pair)
      (rowsWhere (·.owner == owner) 1 m.genericParams.toList) (named.filter (·.1 == owner)) :=
    forall₂_rowsWhere h 1
  have hlength := hrows.length_eq
  rw [genericNames, htidy.genericParamsOf (by omega)]
  refine mapM_ok ?_
  rw [List.forall₂_map_left_iff]
  refine forall₂_of_mem ((List.forall₂_and_left _ _).mpr ⟨fun entry hmem => hmem, hrows⟩) ?_
  rintro entry pair hpair ⟨hmem, -, hname⟩
  obtain ⟨i, hplace, hi⟩ := mem_rowsWhere hmem
  have hrow : m.genericParam entry.1 = .ok entry.2 := by
    rw [Array.getElem?_toList] at hi
    rw [hplace, Nat.add_comm, genericParam, row, hi]
  rw [hnames pair (List.mem_of_mem_filter hpair)] at hname
  rw [hrow]
  exact hname

end Metadata.Module

namespace Work

variable {m : Metadata.Module} {type : Nat} {found : Use → Work Unit} {location : String} {scope : Scope}
  {property : Nat} {names : List String} {entry : MethodEntry}

lemma storedGenerics_ensures (owner : GenericOwner) (hnames : m.genericNames owner = .ok names) :
    Ensures (storedGenerics found ⟨m, location⟩ scope owner names) fun generics =>
      generics.map (·.name) = names := by
  have hlength := Module.length_genericNames hnames
  refine (Ensures.mapM_length _ _).bind fun constraints hconstraints => .pure ?_
  rw [List.map_zipWith]
  change names.zipWith (fun name _ => name) constraints = names
  apply List.ext_getElem?
  intro i
  rw [List.getElem?_zipWith]
  by_cases hi : i < names.length
  · have hother : i < constraints.length := by
      rw [hconstraints]
      change i < (m.genericParamsOf owner).length
      omega
    rw [List.getElem?_eq_getElem hi, List.getElem?_eq_getElem hother]
  · rw [List.getElem?_eq_none (by omega)]

/-! Accessors. -/

def accessedEntry (m : Metadata.Module) (property : Nat) : Option (Nat × Accessed) :=
  let (getter, setter) := m.accessorsOf property
  let first := match getter, setter with
    | some g, some s => some (min g s)
    | some g, none => some g
    | none, setter => setter
  first.map fun method => (method, ⟨property, getter.isSome, setter.isSome⟩)

lemma accessedBy_eq_filterMap (m : Metadata.Module) (type : Nat) :
    accessedBy m type = (m.propertiesOf type).filterMap (accessedEntry m) := rfl

lemma accessedEntry_eq {getter setter : Bool} (hsome : (getter || setter) = true)
    (h : Builder.accessorRows m property = Builder.accessorRowsFrom getter setter start property) :
    accessedEntry m property = some (start, ⟨property, getter, setter⟩) := by
  unfold accessedEntry
  rw [Builder.accessorsOf_eq h]
  cases getter <;> cases setter <;> simp at hsome ⊢

lemma exists_accessor_of_accessorsOf {method : Nat}
    (h : (m.accessorsOf property).1 = some method ∨ (m.accessorsOf property).2 = some method) :
    ∃ row ∈ m.accessors.toList, row.method = method ∧ row.property = property := by
  have hlast : ∀ p : AccessorRow → Bool,
      ((m.accessors.toList.filter (·.property == property)).filter p).getLast?.map (·.method) = some method →
        ∃ row ∈ m.accessors.toList, row.method = method ∧ row.property = property := by
    intro p hp
    obtain ⟨row, hrow, rfl⟩ := Option.map_eq_some_iff.mp hp
    have hmem := List.mem_of_mem_filter (List.mem_of_getLast? hrow)
    obtain ⟨hmem, hproperty⟩ := List.mem_filter.mp hmem
    exact ⟨row, hmem, rfl, beq_iff_eq.mp hproperty⟩
  rcases h with hgetter | hsetter
  · exact hlast _ hgetter
  · exact hlast _ hsetter

lemma exists_accessor {entry : Nat × Accessed} (h : accessedEntry m property = some entry) :
    entry.2.property = property ∧
      ∃ row ∈ m.accessors.toList, row.method = entry.1 ∧ row.property = property := by
  have hrow : ∀ method, (m.accessorsOf property).1 = some method ∨ (m.accessorsOf property).2 = some method →
      ∃ row ∈ m.accessors.toList, row.method = method ∧ row.property = property :=
    fun method => exists_accessor_of_accessorsOf
  unfold accessedEntry at h
  cases hpair : m.accessorsOf property with
  | mk getter setter =>
    rw [hpair] at h hrow
    obtain ⟨method, hfirst, rfl⟩ := Option.map_eq_some_iff.mp h
    refine ⟨rfl, hrow method ?_⟩
    dsimp only at hfirst ⊢
    split at hfirst
    · rename_i g s
      have hmin := Option.some.inj hfirst
      rcases Nat.le_total g s with hle | hle
      · exact .inl (congrArg some (by omega))
      · exact .inr (congrArg some (by omega))
    · exact .inl hfirst
    · exact .inr hfirst

/-- No method is the accessor of two properties. -/
lemma property_eq_of_method_eq (hunique : m.accessors.toList.Pairwise (·.method < ·.method))
    {row other : AccessorRow} (hrow : row ∈ m.accessors.toList) (hother : other ∈ m.accessors.toList)
    (heq : row.method = other.method) : row.property = other.property := by
  have hnodup : (m.accessors.toList.map (·.method)).Nodup := List.pairwise_map.mpr (hunique.imp Nat.ne_of_lt)
  rw [List.inj_on_of_nodup_map hnodup hrow hother heq]

lemma lookup_accessedBy (hunique : m.accessors.toList.Pairwise (·.method < ·.method)) :
    m.RoleAt (m.propertiesOf type) entry role →
    match role with
    | .leading name getter setter => ∃ property sig, m.PropertyAt property name sig ∧
        (accessedBy m type).reverse.lookup entry.row = some ⟨property, getter, setter⟩
    | _ => (accessedBy m type).reverse.lookup entry.row = none := by
  intro hrole
  have hentry : ∀ other ∈ (accessedBy m type).reverse, accessedEntry m other.2.property = some other ∧
      ∃ row ∈ m.accessors.toList, row.method = other.1 ∧ row.property = other.2.property := by
    intro other hmem
    rw [List.mem_reverse, accessedBy_eq_filterMap] at hmem
    obtain ⟨property, -, haccessed⟩ := List.mem_filterMap.mp hmem
    obtain ⟨rfl, hrow⟩ := exists_accessor haccessed
    exact ⟨haccessed, hrow⟩
  cases role with
  | method flags name sig names =>
    obtain ⟨-, -, hnone⟩ := hrole
    rw [List.lookup_eq_none_iff]
    intro other hmem
    obtain ⟨-, row, hrow, hmethod, -⟩ := hentry other hmem
    rw [bne_iff_ne]
    intro heq
    exact hnone row hrow (hmethod.trans heq.symm)
  | leading name getter setter =>
    obtain ⟨hsome, property, hproperty, sig, hat, hrows⟩ := hrole
    have haccessed := accessedEntry_eq hsome hrows
    obtain ⟨-, row, hrow, hmethod, hof⟩ := exists_accessor haccessed
    refine ⟨property, sig, hat, lookup_eq_some_of_forall ?_ fun other hmem heq => ?_⟩
    · rw [List.mem_reverse, accessedBy_eq_filterMap]
      exact List.mem_filterMap.mpr ⟨property, hproperty, haccessed⟩
    · obtain ⟨haccessed', row', hrow', hmethod', hof'⟩ := hentry other hmem
      have hsame : other.2.property = property := by
        rw [← hof, ← hof']
        exact property_eq_of_method_eq hunique hrow' hrow (by omega)
      rw [hsame] at haccessed'
      rw [Option.some.inj (haccessed'.symm.trans haccessed)]
  | trailing =>
    obtain ⟨-, property, start, hplace, hrows⟩ := hrole
    have haccessed := accessedEntry_eq rfl hrows
    have hsetter : (⟨false, true, start + 1, property⟩ : AccessorRow) ∈ m.accessors.toList := by
      have hmem : (⟨false, true, start + 1, property⟩ : AccessorRow) ∈ Builder.accessorRows m property := by
        rw [hrows]
        simp [Builder.accessorRowsFrom]
      exact List.mem_of_mem_filter hmem
    rw [List.lookup_eq_none_iff]
    intro other hmem
    rw [bne_iff_ne]
    intro heq
    obtain ⟨haccessed', row, hrow, hmethod, hof⟩ := hentry other hmem
    have hsame : other.2.property = property := by
      rw [← hof]
      exact property_eq_of_method_eq hunique hrow hsetter (by dsimp only; omega)
    rw [hsame] at haccessed'
    have hfirst := congrArg Prod.fst (Option.some.inj (haccessed'.symm.trans haccessed))
    dsimp only at hfirst
    omega

/-! Members. -/

lemma paramName_getD (names : List String) (place : Nat) :
    paramName ((names.zipIdx 1).map fun entry => (entry.2, entry.1)).reverse place =
      names.getD place ("arg" ++ toString place) := by
  rw [List.getD_eq_getElem?_getD]
  cases hname : names[place]? with
  | some name => exact Plan.StoredIn.paramName_eq hname
  | none =>
    have hnone : ((names.zipIdx 1).map fun entry => (entry.2, entry.1)).reverse.lookup (place + 1) = none := by
      rw [List.lookup_eq_none_iff]
      intro entry hentry
      obtain ⟨given, hgiven, rfl⟩ := List.mem_map.mp (List.mem_reverse.mp hentry)
      have hlt := List.snd_lt_add_of_mem_zipIdx hgiven
      have hle := List.getElem?_eq_none_iff.mp hname
      rw [bne_iff_ne]
      dsimp only
      omega
    rw [paramName, hnone]

lemma storedMethod_ensures {flags : Nat} {sig : MethodSig} (hmethod : m.MethodAt row flags name sig names)
    (hname : Text.untilZero name = name) (hnames : ∀ text ∈ names, Text.untilZero text = text)
    (hlt : names.length < 0x10000) :
    Ensures (storedMethod found ⟨m, location⟩ scope row) fun method =>
      (Member.method method).outline = .method name (paramTexts sig names) := by
  have hparams := Plan.StoredIn.paramNames hmethod hnames hlt
  obtain ⟨⟨head, blob, hrow, -, hstored, hblob, hwrite⟩, -⟩ := hmethod
  rw [hname] at hstored
  unfold storedMethod
  refine Ensures.bind_check hrow ?_
  refine Ensures.bind_check hstored ?_
  refine Ensures.bind_check hblob ?_
  refine Ensures.bind_check (MethodSig.ofBlob_write hwrite) ?_
  refine (Ensures.any _).bind fun genericNames _ => (Ensures.any _).bind fun returns _ => ?_
  refine Ensures.bind_check hparams ?_
  refine (Ensures.mapM_length _ _).bind fun types htypes => ?_
  refine (Ensures.any _).bind fun generics _ => (Ensures.any _).bind fun attributes _ => ?_
  refine (Ensures.any _).bind fun g _ => .pure ?_
  have hlength : types.length = sig.params.length := by
    rw [htypes, MethodSig.reduced, SigType.length_reducedEach]
  rw [Member.outline, paramTexts, ← hlength, List.range_eq_range', ← List.zipIdx_map_snd 0 types]
  simp only [List.map_map]
  congr 1
  refine List.map_congr_left fun entry _ => ?_
  exact paramName_getD names entry.2

lemma storedMember_ensures (hunique : m.accessors.toList.Pairwise (·.method < ·.method))
    (hrole : m.RoleAt (m.propertiesOf type) entry role) (hclean : ∀ name ∈ role.names, Text.untilZero name = name)
    (hparams : m.paramsOf entry.row = .ok (List.range' entry.firstParam entry.names.length))
    (hat : m.ParamsAt entry.firstParam 1 entry.names) (hlt : entry.names.length < 0x10000) :
    Ensures (storedMember found ⟨m, location⟩ scope (accessedBy m type).reverse entry.row) fun member =>
      member.map Member.outline = role.outline? := by
  have hlookup := lookup_accessedBy hunique hrole
  unfold storedMember
  cases role with
  | method flags name sig names =>
    obtain ⟨hhead, rfl, -⟩ := hrole
    have hname := hclean name List.mem_cons_self
    have hnames : ∀ text ∈ entry.names, Text.untilZero text = text :=
      (List.forall_mem_cons.mp hclean).2
    have hmethod : m.MethodAt entry.row flags name sig entry.names := ⟨hhead, _, hparams, hat⟩
    obtain ⟨found', -, hrow, rfl, hstored, -⟩ := hhead
    rw [hname] at hstored
    rw [hlookup]
    dsimp only
    refine Ensures.bind_check hrow ?_
    refine Ensures.bind_check hstored ?_
    rw [RowRole.outline?]
    split
    · exact .pure rfl
    · refine (storedMethod_ensures hmethod hname hnames hlt).bind fun method houtline => .pure ?_
      rw [Option.map_some, houtline]
  | leading name getter setter =>
    obtain ⟨property, sig, ⟨row, blob, hrow, hstored, -, -⟩, hfound⟩ := hlookup
    rw [hclean name List.mem_cons_self] at hstored
    rw [hfound]
    dsimp only
    have hproperty : Ensures (storedProperty found ⟨m, location⟩ scope ⟨property, getter, setter⟩) fun p =>
        (Member.property p).outline = .property name getter setter := by
      unfold storedProperty
      refine Ensures.bind_check hrow ?_
      refine Ensures.bind_check hstored ?_
      refine (Ensures.any _).bind fun _ _ => (Ensures.any _).bind fun _ _ => ?_
      refine (Ensures.any _).bind fun _ _ => (Ensures.any _).bind fun _ _ => ?_
      exact (Ensures.any _).bind fun _ _ => .pure rfl
    refine hproperty.bind fun p hp => .pure ?_
    rw [Option.map_some, hp]
    rfl
  | trailing =>
    obtain ⟨⟨row, text, hrow, hflags, hstored⟩, -⟩ := hrole
    rw [hlookup]
    dsimp only
    refine Ensures.bind_check hrow ?_
    refine Ensures.bind_check hstored ?_
    rw [if_pos (by rw [hflags]; rfl)]
    exact .pure rfl

end Work

section Built

variable {assembly : String} {calls : List BuildCall} (hok : (Builder.ofAssembly assembly).Succeeds calls)
  (hnames : ∀ call ∈ calls, ∀ name ∈ call.names, '\x00' ∉ name.toList)

include hok hnames

lemma genericNames_afterAll {owner : GenericOwner}
    (hgenerics : (calls.filterMap (BuildCall.genericFor? owner)).length ≤ 0x10000) :
    ((Builder.ofAssembly assembly).afterAll calls).module.genericNames owner =
      .ok (calls.filterMap (BuildCall.genericFor? owner)) := by
  have hinitial := Builder.Ledger.initial assembly
  obtain ⟨types, generics, hgrows, hnamed⟩ := hinitial.grows hok
  have hall : ((Builder.ofAssembly assembly).afterAll calls).module.genericParams.toList = generics :=
    hgrows.generics
  rw [← hall] at hnamed
  rw [filterMap_genericFor] at hgenerics ⊢
  refine Module.genericNames_of_names (hinitial.afterAll calls).tidy hnamed ?_ (by simpa using hgenerics)
  intro pair hpair
  obtain ⟨call, hcall, hof⟩ := List.mem_filterMap.mp hpair
  cases call with
  | addGenericParam other name =>
    cases hof
    exact Text.untilZero_eq_self (hnames _ hcall name List.mem_cons_self)
  | _ => cases hof

section

variable (hparams : ∀ call ∈ calls, ∀ names ∈ call.paramNames, names.length ≤ 0xffff)
  {found : Use → Work Unit} {location : String} {scope : Scope} {type : Nat}

include hparams

lemma storedMembers_ensures {rows : List Nat}
    (hrows : ((Builder.ofAssembly assembly).afterAll calls).module.methodsOf type = .ok rows) :
    Ensures (rows.mapM (storedMember found ⟨((Builder.ofAssembly assembly).afterAll calls).module, location⟩
        scope (accessedBy ((Builder.ofAssembly assembly).afterAll calls).module type).reverse))
      fun members => members.map (Option.map Member.outline) =
        ((callsOn type 0 calls).flatMap BuildCall.roles).map RowRole.outline? := by
  have hinitial := Builder.Ledger.initial assembly
  have hledger := hinitial.afterAll calls
  obtain ⟨types, generics, hgrows, -⟩ := hinitial.grows hok
  have hunique : ((Builder.ofAssembly assembly).afterAll calls).module.accessors.toList.Pairwise
      (·.method < ·.method) := by
    rw [hgrows.accessors]
    exact pairwise_accessorsFor calls _ _
  have hroles := hinitial.roles (fun _ hrow => nomatch hrow) hok type
  rw [List.nil_append, List.nil_append] at hledger
  rw [← hledger.propertiesOf type] at hroles
  have hwithin : 1 ≤ type ∧ type ≤ ((Builder.ofAssembly assembly).afterAll calls).module.typeDefs.size := by
    obtain ⟨row, hrow, -⟩ := bind_eq_ok hrows
    exact Module.row_le_size hrow
  cases (hledger.methodsOf type hwithin.1 hwithin.2).symm.trans hrows
  apply Ensures.mapM
  rw [Builder.methodRows, List.forall₂_map_left_iff]
  refine forall₂_of_mem ((List.forall₂_and_left _ _).mpr ⟨fun entry hmem => hmem, hroles⟩) ?_
  rintro entry role hmem ⟨hentry, hrole⟩
  replace hentry := List.mem_of_mem_filter hentry
  refine storedMember_ensures hunique hrole ?_ (hledger.paramsOf entry hentry) (hledger.named entry hentry) ?_
  · intro name hname
    obtain ⟨call, hcall, hof⟩ := List.mem_flatMap.mp hmem
    rcases mem_names_of_mem_roles hof hname with hgiven | rfl
    · exact Text.untilZero_eq_self (hnames call (mem_callsOn hcall) name hgiven)
    · decide +kernel
  · obtain ⟨call, hcall, hgiven⟩ := Builder.mem_methodJournal hentry
    have hle := hparams call hcall entry.names hgiven
    omega

lemma storedShape_ensures
    (hgenerics : (calls.filterMap (BuildCall.genericFor? (.type type))).length ≤ 0x10000) {kind : Kind}
    (hkind : kind ≠ .enumType) :
    Ensures (storedShape found ⟨((Builder.ofAssembly assembly).afterAll calls).module, location⟩ scope kind type)
      fun shape => shape.generics.map (·.name) = calls.filterMap (BuildCall.genericFor? (.type type)) ∧
        shape.members.map Member.outline = (callsOn type 0 calls).filterMap BuildCall.outline? := by
  have hgenericNames := genericNames_afterAll hok hnames hgenerics
  unfold storedShape
  rw [if_neg hkind]
  refine Ensures.bind_check hgenericNames ?_
  refine (storedGenerics_ensures _ hgenericNames).bind fun generics hgenerics => ?_
  refine (Ensures.any _).bind fun _ _ => (Ensures.any _).bind fun bases _ => ?_
  refine (Ensures.check _).bind fun rows hrows => ?_
  refine (storedMembers_ensures hok hnames hparams hrows).bind fun members hmembers => ?_
  refine (Ensures.any _).bind fun attributes _ => .pure ⟨hgenerics, ?_⟩
  rw [← filterMap_flatMap_roles, List.map_filterMap]
  have hsome := congrArg (List.filterMap id) hmembers
  rw [List.filterMap_map, List.filterMap_map] at hsome
  exact hsome

end

end Built

/-- Whatever is asked of an atlas, a declaration that was loaded from a module has the generic
parameters and the members that the calls on its type added to the module, in call order. -/
theorem Atlas.members_load_in_call_order (assembly : String) (calls : List BuildCall)
    (hok : (Builder.ofAssembly assembly).Succeeds calls)
    (hnames : ∀ call ∈ calls, ∀ name ∈ call.names, '\x00' ∉ name.toList)
    (hparams : ∀ call ∈ calls, ∀ names ∈ call.paramNames, names.length ≤ 0xffff)
    (settings : Settings) (steps : List Call) (id : DeclId) (d : Declaration) (type : Nat)
    (hgenerics : (calls.filterMap (BuildCall.genericFor? (.type type))).length ≤ 0x10000)
    (hd : (({ settings } : Atlas).afterAll steps).graph.get? id = some d)
    (hfrom : d.provenance = .module ((Builder.ofAssembly assembly).afterAll calls).module type)
    (hkind : d.kind ≠ .enumType) (hloaded : d.loaded = true) :
    d.shape.generics.map (·.name) = calls.filterMap (BuildCall.genericFor? (.type type)) ∧
      d.shape.members.map Member.outline = (callsOn type 0 calls).filterMap BuildCall.outline? := by
  obtain ⟨e, found, a, b, hheader, hrun⟩ :=
    Atlas.explored_afterAll settings steps id d hd hloaded List.not_mem_nil
  have hprovenance : e.provenance = d.provenance := by rw [hheader]
  have hsame : e.kind = d.kind := by rw [hheader]
  rw [shapeOf, hprovenance, hfrom, hsame] at hrun
  exact storedShape_ensures hok hnames hparams hgenerics hkind a d.shape b hrun

/-- The row that a declaration comes from. -/
def Provenance.row? : Provenance → Option Nat
  | .source => none
  | .module _ row => some row

/-- What the first import brings in is of the module that was imported, before a load and after. -/
lemma provenance_of_import {m : Metadata.Module} {location : String} {settings : Settings} {id : DeclId}
    {d : Declaration} (hok : ((Call.importLibrary ⟨m, location⟩).work.exec { settings }).1.isOk = true)
    (hrow : ((({ settings } : Atlas).after (.importLibrary ⟨m, location⟩)).graph.get? id).bind (·.provenance.row?) =
      some row)
    (hd : (({ settings } : Atlas).afterAll [.importLibrary ⟨m, location⟩, .load id]).graph.get? id = some d) :
    d.provenance = .module m row := by
  obtain ⟨_, hok⟩ := exists_of_isOk hok
  have hcomplete := (Atlas.Complete.initial settings).importLibrary ⟨m, location⟩ hok
  have hlasts := (Call.load id).keeps_lasts (({ settings } : Atlas).after (.importLibrary ⟨m, location⟩)) _ (.refl _)
  obtain ⟨e, he, hplace⟩ := Option.bind_eq_some_iff.mp hrow
  obtain ⟨found, hfound, hbecomes, -⟩ := hlasts id e he
  obtain rfl := Option.some.inj (hfound.symm.trans hd)
  have hsame : found.provenance = e.provenance := by rw [hbecomes.header]
  rw [hsame]
  cases hprovenance : e.provenance with
  | source => simp [hprovenance, Provenance.row?] at hplace
  | module home place =>
    have hmem := hcomplete.homed he hprovenance
    rw [Atlas.libraries_of_import hok] at hmem
    obtain ⟨rfl, -⟩ := Library.mk.inj (List.mem_singleton.mp hmem)
    rw [hprovenance] at hplace
    rw [Option.some.inj hplace]

/-- Calls for two types of a shop, the second with members that are hidden. -/
def shopCalls : List BuildCall :=
  [.defineType 0 "Shop" "Item" none, .addMethod 0 "Sort" (Builder.instanceSig (.builtin .void) []) [],
    .defineType 0 "Shop" "Box`1" none, .addConstructor [.builtin .int] ["size"],
    .addProperty "Price" (.builtin .int) true false, .addProperty "Unused" (.builtin .int) false false,
    .addGenericParam (.type 2) "T",
    .addMethod 0 "Pack" (Builder.instanceSig (.builtin .void) [.typeParam 0, .builtin .int]) ["item"],
    .addMethod 0x0800 "Hidden" (Builder.instanceSig (.builtin .void) []) [],
    .addMethod 0 "<Pack>b" (Builder.instanceSig (.builtin .void) []) [],
    .addProperty "Size" (.builtin .int) true true]

def shopModule : Metadata.Module := ((Builder.ofAssembly "Shop").afterAll shopCalls).module

/-- The second type of the shop, with a parameter that was not named. -/
theorem members_load_in_call_order_shop :
    let a := ({ settings := {} } : Atlas).afterAll [.importLibrary ⟨shopModule, "shop.dll"⟩, .load 1]
    ∃ d, a.graph.get? 1 = some d ∧ d.provenance = .module shopModule 2 ∧ d.loaded = true ∧
      d.shape.generics.map (·.name) = ["T"] ∧
      d.shape.members.map Member.outline =
        [.property "Price" true false, .method "Pack" ["item", "arg1"], .property "Size" true true] := by
  intro a
  have hok : (Builder.ofAssembly "Shop").Succeeds shopCalls := by
    have hall : ((Builder.ofAssembly "Shop").transcript shopCalls).all (·.reply.isOk) = true := by decide +kernel
    exact fun made hmade => exists_of_isOk (List.all_eq_true.mp hall made hmade)
  have hmarks : (a.graph.get? 1).map (fun d => (d.loaded, d.kind)) = some (true, .classType) := by decide +kernel
  obtain ⟨d, hd, hmarks⟩ := Option.map_eq_some_iff.mp hmarks
  obtain ⟨hloaded, hkind⟩ := Prod.mk.inj hmarks
  have himport : ((Call.importLibrary ⟨shopModule, "shop.dll"⟩).work.exec { settings := {} }).1.isOk = true := by
    decide +kernel
  have hfrom : d.provenance = .module shopModule 2 := provenance_of_import himport (by decide +kernel) hd
  have hnot : d.kind ≠ .enumType := by simp [hkind]
  obtain ⟨hgenerics, hmembers⟩ := Atlas.members_load_in_call_order "Shop" shopCalls hok (by decide +kernel)
    (by decide) {} _ 1 d 2 (by decide) hd hfrom hnot hloaded
  exact ⟨d, hd, hfrom, hloaded, hgenerics.trans (by decide), hmembers.trans (by decide +kernel)⟩

end TypeAtlas
