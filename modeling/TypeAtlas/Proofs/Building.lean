import TypeAtlas.Proofs.BuildRuns

/-!
Building a module step by step. Each step that succeeds keeps the tables tidy, adds its rows
behind those that exist and leaves complete lists alone.
-/

namespace TypeAtlas.Metadata

variable {blob : Bytes} {names : List String} {sig : MethodSig} {offset row flags : Nat} {type : SigType}
  {name : String} {owner : GenericOwner} {ns : String} {token : Token} {b'' : Builder}

namespace Module

variable {m : Module}

lemma size_le_push {α : Type} (rows : Array α) (row : α) : rows.size ≤ (rows.push row).size := by
  rw [Array.size_push]
  exact Nat.le_succ _

lemma defines_mono {m' : Module} (h : m.defines owner) (htypes : m.typeDefs.size ≤ m'.typeDefs.size)
    (hmethods : m.methods.size ≤ m'.methods.size) : m'.defines owner := by
  cases owner with
  | type row => exact Nat.le_trans h htypes
  | method row => exact Nat.le_trans h hmethods

namespace Tidy

section

variable (h : m.Tidy)

include h

lemma withStrings {strings : StringHeap} (hstrings : strings.Sound) :
    Tidy { m with strings := strings } :=
  { h with strings := hstrings }

lemma pushTypeDef {row : TypeDefRow} (hlist : row.methodList = m.methods.size + 1) :
    Tidy { m with typeDefs := m.typeDefs.push row } :=
  { h with
    methodLists := Array.forall_mem_push.mpr ⟨Nat.le_of_eq hlist, h.methodLists⟩
    parents_le := fun map hmem => Nat.le_trans (h.parents_le map hmem) (size_le_push _ _) }

lemma pushMethod {row : MethodRow} (hlist : row.paramList = m.params.size + 1) :
    Tidy { m with methods := m.methods.push row } :=
  { h with
    methodLists := fun type hmem => Nat.le_trans (h.methodLists type hmem) (Nat.succ_le_succ (size_le_push _ _))
    paramLists := Array.forall_mem_push.mpr ⟨Nat.le_of_eq hlist, h.paramLists⟩ }

lemma withParams {params : Array ParamRow} (hsize : m.params.size ≤ params.size) :
    Tidy { m with params := params } :=
  { h with paramLists := fun method hmem => Nat.le_trans (h.paramLists method hmem) (Nat.succ_le_succ hsize) }

lemma pushParam (row : ParamRow) : Tidy { m with params := m.params.push row } :=
  h.withParams (size_le_push _ _)

lemma pushProperty (row : PropertyRow) : Tidy { m with properties := m.properties.push row } :=
  { h with
    propertyLists := fun map hmem => Nat.le_trans (h.propertyLists map hmem) (Nat.succ_le_succ (size_le_push _ _)) }

lemma pushPropertyMap {row : PropertyMapRow}
    (hlist : row.propertyList = m.properties.size + 1) (hparent : row.parent = m.typeDefs.size)
    (hnew : ∀ map ∈ m.propertyMaps, map.parent ≠ row.parent) :
    Tidy { m with propertyMaps := m.propertyMaps.push row } :=
  { h with
    propertyLists := Array.forall_mem_push.mpr ⟨Nat.le_of_eq hlist, h.propertyLists⟩
    parents := by
      rw [Array.toList_push, List.pairwise_append]
      refine ⟨h.parents, List.pairwise_singleton _ _, fun map hmem other hother => ?_⟩
      obtain rfl := List.mem_singleton.mp hother
      have hmem := Array.mem_toList_iff.mp hmem
      have hle := h.parents_le map hmem
      have hne := hnew map hmem
      omega
    parents_le := Array.forall_mem_push.mpr ⟨Nat.le_of_eq hparent, h.parents_le⟩ }

lemma pushGenericParam {row : GenericParamRow}
    (hnumber : row.number = m.genericParams.countP (·.owner == row.owner) % 0x10000) :
    Tidy { m with genericParams := m.genericParams.push row } :=
  { h with
    numbers := by
      intro owner
      have hold := h.numbers owner
      simp only [Array.toList_push, rowsWhere_append, List.map_append, hold, Array.countP_push]
      by_cases howner : row.owner = owner
      · subst howner
        simp [List.range_succ, hnumber]
      · simp [howner] }

/-- Only the last list of properties can be that of the last type. -/
lemma parent_absent (hback : ¬m.propertyMaps.back?.map (·.parent) = some m.typeDefs.size) :
    ∀ map ∈ m.propertyMaps.toList, map.parent ≠ m.typeDefs.size := by
  intro map hmem heq
  obtain ⟨before, after, hsplit⟩ := List.append_of_mem hmem
  have hsorted := h.parents
  rw [hsplit, List.pairwise_append] at hsorted
  cases after with
  | nil =>
    rw [← Array.getLast?_toList, hsplit, List.getLast?_concat, Option.map_some, heq] at hback
    exact hback rfl
  | cons next after =>
    have hlt := (List.pairwise_cons.mp hsorted.2.1).1 next List.mem_cons_self
    have hle := h.parents_le next (Array.mem_toList_iff.mp (by simp [hsplit]))
    omega

lemma last_list (hback : m.propertyMaps.back?.map (·.parent) = some m.typeDefs.size) :
    ∃ before map, m.propertyMaps.toList = before ++ [map] ∧ map.parent = m.typeDefs.size ∧
      ∀ other ∈ before, other.parent ≠ m.typeDefs.size := by
  obtain ⟨map, hmap, hparent⟩ := Option.map_eq_some_iff.mp hback
  rw [← Array.getLast?_toList] at hmap
  obtain ⟨before, hbefore⟩ := List.getLast?_eq_some_iff.mp hmap
  have hsorted := h.parents
  rw [hbefore, List.pairwise_append] at hsorted
  refine ⟨before, map, hbefore, hparent, fun other hmem => ?_⟩
  exact hparent ▸ Nat.ne_of_lt (hsorted.2.2 other hmem map List.mem_cons_self)

/-- A list that is opened for the last type is empty, as if there were none. -/
lemma propertiesOf_open
    (hback : ¬m.propertyMaps.back?.map (·.parent) = some m.typeDefs.size) (type : Nat) :
    propertiesIn m.properties.size type
      (m.propertyMaps.push ⟨m.typeDefs.size, m.properties.size + 1⟩).toList = m.propertiesOf type := by
  rw [Array.toList_push]
  by_cases htype : type = m.typeDefs.size
  · have habsent := h.parent_absent hback
    subst htype
    have hlast : propertiesIn m.properties.size m.typeDefs.size
        (m.propertyMaps.toList ++ [⟨m.typeDefs.size, m.properties.size + 1⟩]) =
        listRows (m.properties.size + 1) none m.properties.size := propertiesIn_last rfl habsent
    rw [hlast, propertiesOf, propertiesIn_absent habsent]
    simp [listRows]
  · exact propertiesIn_open m.properties.size rfl (Ne.symm htype)

end

end Tidy

def Refers (m : Module) (row : Nat) (key : RefScope × String × String) : Prop :=
  ∃ found, m.typeRef row = .ok found ∧ found.scope = key.1 ∧
    m.strings.get found.ns = .ok (Text.untilZero key.2.1) ∧
    m.strings.get found.name = .ok (Text.untilZero key.2.2)

/-- A type of another assembly. -/
def External (m : Module) (token : Token) (assembly ns name : String) : Prop :=
  ∃ row scope found, token = .reference row ∧ m.Refers row (.assembly scope, ns, name) ∧
    m.assemblyRef scope = .ok found ∧ m.strings.get found.name = .ok (Text.untilZero assembly)

/-- A specification whose blob is what a type was written to. -/
def Specifies (m : Module) (row : Nat) (sig : SigType) : Prop :=
  ∃ found blob, m.typeSpec row = .ok found ∧ m.blobs.get found.signature = .ok blob ∧
    sig.write = .ok blob

def MethodAt (m : Module) (row flags : Nat) (name : String) (sig : MethodSig) (names : List String) :
    Prop :=
  m.MethodHead row flags name sig ∧
    ∃ start, m.paramsOf row = .ok (List.range' start names.length) ∧ m.ParamsAt start 1 names

namespace Extends

variable {m m' : Module} {done : Done} (h : m.Extends done m')

include h

lemma isExternal {assembly : String} (hexternal : m.External token assembly ns name) :
    m'.External token assembly ns name := by
  obtain ⟨row, scope, entry, rfl, ⟨found, hrow, hscope, hns, hname⟩, hassembly, hhome⟩ := hexternal
  exact ⟨row, scope, entry, rfl, ⟨found, row_of_prefix h.typeRefs hrow, hscope, h.getString hns, h.getString hname⟩,
    row_of_prefix h.assemblyRefs hassembly, h.getString hhome⟩

lemma specifies {sig : SigType} (hspecifies : m.Specifies row sig) : m'.Specifies row sig := by
  obtain ⟨found, blob, hrow, hblob, hwrite⟩ := hspecifies
  exact ⟨found, blob, row_of_prefix h.typeSpecs hrow, BlobHeap.get_of_prefix h.blobs hblob, hwrite⟩

lemma methodAt (hdone : row ≤ done.signatures) (hmethod : m.MethodAt row flags name sig names) :
    m'.MethodAt row flags name sig names := by
  obtain ⟨hhead, start, hparams, hat⟩ := hmethod
  exact ⟨h.methodHead hhead, start, (h.paramsOf row hdone).trans hparams, hat.mono h.params h.strings⟩

end Extends

end Module

namespace Builder

variable {α β : Type} {b b' : Builder} {blobs : BlobHeap} {getter setter : Bool} {property : Nat}

/-- A builder whose tables are tidy. The open type is the last one. -/
structure Sound (b : Builder) : Prop where
  tidy : b.module.Tidy
  closed : b.module.Closed
  opened : ∀ type, b.openType = some type → 1 ≤ type ∧ type = b.module.typeDefs.size

lemma Sound.initial (assembly : String) : (ofAssembly assembly).Sound where
  tidy :=
    { strings := .initial
      methodLists := fun _ hmem => by simp [ofAssembly] at hmem
      paramLists := fun _ hmem => by simp [ofAssembly] at hmem
      propertyLists := fun _ hmem => by simp [ofAssembly] at hmem
      parents := List.Pairwise.nil
      parents_le := fun _ hmem => by simp [ofAssembly] at hmem
      numbers := fun _ => rfl }
  closed :=
    { interfaces := fun _ hmem => by simp [ofAssembly] at hmem
      owners := fun _ hmem => by simp [ofAssembly] at hmem
      constraints := fun _ hmem => by simp [ofAssembly] at hmem
      accessors := fun _ hmem => by simp [ofAssembly] at hmem }
  opened := fun _ hopen => by cases hopen

/-- A step that keeps a builder sound and its complete lists as they are. -/
structure Advances (done : Module.Done) (b b' : Builder) : Prop where
  sound : b'.Sound
  grows : b.module.Extends done b'.module

/-- A step that puts a tidy module with as many types in place of the old one. -/
lemma Sound.advances (hb : b.Sound) {m : Module} {done : Module.Done} (htidy : m.Tidy)
    (hclosed : m.Closed) (htypes : m.typeDefs.size = b.module.typeDefs.size)
    (hgrows : b.module.Extends done m) : b.Advances done { b with module := m } :=
  ⟨⟨htidy, hclosed, fun type hopen => htypes ▸ hb.opened type hopen⟩, hgrows⟩

lemma Advances.trans {done : Module.Done} (h : b.Advances done b')
    (h' : b'.Advances done b'') : b.Advances done b'' :=
  ⟨h'.sound, h.grows.trans h'.grows⟩

/-- A step that adds no types, methods or properties. -/
structure Leaves (b b' : Builder) : Prop where
  typeDefs : b'.module.typeDefs = b.module.typeDefs
  methods : b'.module.methods = b.module.methods
  properties : b'.module.properties = b.module.properties
  openType : b'.openType = b.openType

lemma Leaves.refl (b : Builder) : b.Leaves b := ⟨rfl, rfl, rfl, rfl⟩

lemma Leaves.trans (h : b.Leaves b') (h' : b'.Leaves b'') : b.Leaves b'' where
  typeDefs := h'.typeDefs.trans h.typeDefs
  methods := h'.methods.trans h.methods
  properties := h'.properties.trans h.properties
  openType := h'.openType.trans h.openType

/-- A step that puts so many methods and properties behind those of the last type. -/
structure Appends (done : Module.Done) (b b' : Builder) (ms ps : Nat) : Prop extends b.Advances done b' where
  types : b'.module.typeDefs.size = b.module.typeDefs.size
  methods : b'.module.methods.size = b.module.methods.size + ms
  properties : b'.module.properties.size = b.module.properties.size + ps
  generics : b.module.genericParams.size ≤ b'.module.genericParams.size
  methodsOf : ∀ rows, b.module.methodsOf b.module.typeDefs.size = .ok rows →
    b'.module.methodsOf b.module.typeDefs.size = .ok (rows ++ List.range' (b.module.methods.size + 1) ms)
  propertiesOf : b'.module.propertiesOf b.module.typeDefs.size =
    b.module.propertiesOf b.module.typeDefs.size ++ List.range' (b.module.properties.size + 1) ps

lemma Advances.appends {done : Module.Done} (h : b.Advances done b') (hleaves : b.Leaves b')
    (hgenerics : b.module.genericParams.size ≤ b'.module.genericParams.size)
    (hlist : b'.module.propertiesOf b.module.typeDefs.size = b.module.propertiesOf b.module.typeDefs.size) :
    b.Appends done b' 0 0 where
  toAdvances := h
  types := congrArg Array.size hleaves.typeDefs
  methods := congrArg Array.size hleaves.methods
  properties := congrArg Array.size hleaves.properties
  generics := hgenerics
  methodsOf := by
    intro rows hrows
    unfold Module.methodsOf Module.typeDef at hrows ⊢
    rw [hleaves.typeDefs, hleaves.methods, hrows]
    exact congrArg Except.ok (List.append_nil rows).symm
  propertiesOf := by rw [hlist, List.range'_zero, List.append_nil]

lemma Appends.trans {done : Module.Done} {methods methods' properties properties' : Nat}
    (h : b.Appends done b' methods properties) (h' : b'.Appends done b'' methods' properties') :
    b.Appends done b'' (methods + methods') (properties + properties') where
  toAdvances := h.toAdvances.trans h'.toAdvances
  types := h'.types.trans h.types
  methods := by rw [h'.methods, h.methods, Nat.add_assoc]
  properties := by rw [h'.properties, h.properties, Nat.add_assoc]
  generics := Nat.le_trans h.generics h'.generics
  methodsOf := by
    intro rows hrows
    have hnext := h'.methodsOf _ (h.types ▸ h.methodsOf rows hrows)
    rwa [h.types, h.methods, Nat.add_right_comm, List.append_assoc, List.range'_append_1] at hnext
  propertiesOf := by
    have hnext := h'.propertiesOf
    rwa [h.types, h.propertiesOf, h.properties, Nat.add_right_comm, List.append_assoc, List.range'_append_1] at hnext

section Steps

variable (done : Module.Done) (hb : b.Sound)

include hb

lemma intern_advances (text : String) : b.Advances done (b.interned text) :=
  hb.advances (hb.tidy.withStrings (hb.tidy.strings.intern text)) { hb.closed with } rfl
    (.withStrings (b.module.strings.bytes_prefix_intern text))

lemma addInterface_spec {type : Nat} {interface : Token} (htype : type ≤ b.module.typeDefs.size)
    (hdone : done.interfaces < type) (h : run (addInterface type interface) b = (.ok (), b')) :
    b.Advances done b' ∧
      (∃ interfaces, b' = { b with module := { b.module with interfaces := interfaces } }) ∧
      b'.module.interfacesOf type = b.module.interfacesOf type ++ [interface] := by
  obtain ⟨-, rfl⟩ := Prod.mk.inj h
  refine ⟨hb.advances { hb.tidy with }
    { hb.closed with interfaces := Array.forall_mem_push.mpr ⟨htype, hb.closed.interfaces⟩ } rfl (.pushInterface hdone),
    ⟨_, rfl⟩, ?_⟩
  simp [Module.interfacesOf]

lemma addConstraint_spec {param : Nat} {constraint : Token} (hparam : param ≤ b.module.genericParams.size)
    (hdone : done.generics < param) (h : run (addConstraint param constraint) b = (.ok (), b')) :
    b.Advances done b' ∧
      (∃ constraints, b' = { b with module := { b.module with constraints := constraints } }) ∧
      b'.module.constraintsOf param = b.module.constraintsOf param ++ [constraint] := by
  obtain ⟨-, rfl⟩ := Prod.mk.inj h
  refine ⟨hb.advances { hb.tidy with }
    { hb.closed with constraints := Array.forall_mem_push.mpr ⟨hparam, hb.closed.constraints⟩ } rfl (.pushConstraint hdone),
    ⟨_, rfl⟩, ?_⟩
  simp [Module.constraintsOf]

omit hb in
lemma write_ne_nil {sig : SigType} (h : sig.write = .ok blob) : blob ≠ [] := by
  obtain ⟨code, rest, rfl, -⟩ := SigType.write_head h
  exact List.cons_ne_nil code rest

lemma pushBlob_spec (hblob : blob ≠ []) (hpush : b.module.blobs.push blob = .ok (offset, blobs)) :
    b.Advances done (b.withBlobs blobs) ∧ blobs.get offset = .ok blob := by
  obtain ⟨hbegins, hget⟩ := BlobHeap.push_spec hblob hpush
  exact ⟨hb.advances { hb.tidy with } { hb.closed with } rfl (.withBlobs hbegins), hget⟩

/-- A specification gets the next row. -/
lemma typeSpecification_spec {sig : SigType} (h : run (typeSpecification sig) b = (.ok token, b')) :
    b.Advances done b' ∧
      (∃ blobs specs, b' = { b with module := { b.module with blobs := blobs, typeSpecs := specs } }) ∧
      ∃ row, token = .specification row ∧ b'.module.Specifies row sig := by
  obtain ⟨blob, _, hencode, hrest⟩ := run_bind_ok h
  obtain ⟨hwrite, rfl⟩ := Prod.mk.inj ((run_ofExcept _ b).symm.trans hencode)
  obtain ⟨offset, c, hstore, hlast⟩ := run_bind_ok hrest
  obtain ⟨blobs, hpush, rfl⟩ := run_pushBlob_ok hstore
  obtain ⟨hc, hget⟩ := pushBlob_spec done hb (write_ne_nil hwrite) hpush
  obtain ⟨htoken, rfl⟩ := Prod.mk.inj hlast
  cases htoken
  refine ⟨hc.trans (hc.sound.advances { hc.sound.tidy with } { hc.sound.closed with } rfl (.pushTypeSpec _)),
    ⟨_, _, rfl⟩, _, rfl, ⟨offset⟩, blob, ?_, hget, hwrite⟩
  change Module.row .typeSpec (b.module.typeSpecs.push ⟨offset⟩) (b.module.typeSpecs.push ⟨offset⟩).size = _
  rw [Array.size_push]
  exact Module.row_push_self _ _

lemma addGenericParam_spec (howner : b.module.defines owner)
    (hdone : ¬done.covers owner) (h : run (addGenericParam owner name) b = (.ok row, b')) :
    b.Advances done b' ∧ row = b.module.genericParams.size + 1 ∧
      (∃ strings params, params.size = row ∧ b' = { b with module := { b.module with
        strings := strings, genericParams := params } }) ∧
      (∃ found, b'.module.genericParam row = .ok found ∧
        b'.module.strings.get found.name = .ok (Text.untilZero name)) ∧
      (Module.rowsWhere (·.owner == owner) 1 b'.module.genericParams.toList).map (·.1) =
        (Module.rowsWhere (·.owner == owner) 1 b.module.genericParams.toList).map (·.1) ++ [row] := by
  obtain ⟨hresult, rfl⟩ := Prod.mk.inj ((run_addGenericParam owner name b).symm.trans h)
  cases hresult
  have hc := intern_advances done hb name
  have hget := StringHeap.get_intern hb.tidy.strings name
  have hclosed : (run (addGenericParam owner name) b).2.module.Closed :=
    { hb.closed with
      owners := Array.forall_mem_push.mpr ⟨howner, hb.closed.owners⟩
      constraints := fun constraint hmem =>
        Nat.le_trans (hb.closed.constraints constraint hmem) (Module.size_le_push _ _) }
  refine ⟨hc.trans (hc.sound.advances (hc.sound.tidy.pushGenericParam rfl) hclosed rfl (.pushGenericParam hdone)), rfl,
    ⟨_, _, Array.size_push _, rfl⟩, ?_, ?_⟩
  · exact ⟨_, Module.row_push_self _ _, hget⟩
  · simp [Module.rowsWhere_append, genericRow, Nat.add_comm]

/-- A type comes behind those that exist, is open, and has nothing yet. -/
lemma defineType_spec {base : Option Token} (hdone : done.bodies ≤ b.module.typeDefs.size)
    (h : run (defineType flags ns name base) b = (.ok row, b')) :
    b.Advances done b' ∧ row = b.module.typeDefs.size + 1 ∧
      (∃ strings types, types.size = row ∧ b' = { b with
        module := { b.module with strings := strings, typeDefs := types }, openType := some row }) ∧
      (∃ found, b'.module.typeDef row = .ok found ∧ found.flags = flags ∧ found.base = base ∧
        b'.module.strings.get found.ns = .ok (Text.untilZero ns) ∧
        b'.module.strings.get found.name = .ok (Text.untilZero name)) ∧
      b'.module.methodsOf row = .ok [] ∧ b'.module.propertiesOf row = [] ∧
      b'.module.interfacesOf row = [] ∧
      Module.rowsWhere (·.owner == .type row) 1 b'.module.genericParams.toList = [] := by
  obtain ⟨hresult, rfl⟩ := Prod.mk.inj ((run_defineType flags ns name base b).symm.trans h)
  cases hresult
  have hname := intern_advances done hb name
  have hns := intern_advances done hname.sound ns
  have hgetName := hns.grows.getString (StringHeap.get_intern hb.tidy.strings name)
  have hgetNs := StringHeap.get_intern hname.sound.tidy.strings ns
  have hsound : Sound { (b.interned name).interned ns with
      module.typeDefs := b.module.typeDefs.push (typeRow b flags ns name base)
      openType := some (b.module.typeDefs.size + 1) } :=
    { tidy := hns.sound.tidy.pushTypeDef rfl
      closed :=
        { hb.closed with
          interfaces := fun interface hmem =>
            Nat.le_trans (hb.closed.interfaces interface hmem) (Module.size_le_push _ _)
          owners := fun param hmem =>
            Module.defines_mono (hb.closed.owners param hmem) (Module.size_le_push _ _) (Nat.le_refl _) }
      opened := by
        rintro type hopen
        cases hopen
        exact ⟨Nat.le_add_left 1 _, (Array.size_push _).symm⟩ }
  refine ⟨⟨hsound, (hname.grows.trans hns.grows).trans (.pushTypeDef rfl hdone)⟩, rfl,
    ⟨_, _, Array.size_push _, rfl⟩, ?_, ?_, ?_, ?_, ?_⟩
  · exact ⟨_, Module.row_push_self _ _, rfl, rfl, hgetNs, hgetName⟩
  · exact Module.owned_push_self rfl
  · refine Module.propertiesIn_absent fun map hmem => ?_
    have hle := hb.tidy.parents_le map (Array.mem_toList_iff.mp hmem)
    omega
  · exact hb.closed.interfacesOf (Nat.lt_succ_self _)
  · have hnew : ¬b.module.defines (.type (b.module.typeDefs.size + 1)) := by
      simp [Module.defines]
    exact hb.closed.rowsWhere_owner hnew

lemma withParams_advances (sequence : Nat) (names : List String) (hdone : done.signatures < b.module.methods.size) :
    b.Advances done (b.withParams sequence names) := by
  induction names generalizing b sequence with
  | nil => exact ⟨hb, .refl done _⟩
  | cons name names ih =>
    have hc := intern_advances done hb name
    have hd : (b.interned name).Advances done (b.withParam sequence name) :=
      hc.sound.advances (hc.sound.tidy.pushParam _) { hb.closed with } rfl (.pushParam _ hdone)
    exact hc.trans (hd.trans (ih hd.sound (sequence + 1) hdone))

lemma Sound.pushAccessor (row : AccessorRow) (hproperty : row.property ≤ b.module.properties.size)
    (hdone : done.properties < row.property) :
    b.Advances done { b with module := { b.module with accessors := b.module.accessors.push row } } :=
  hb.advances { hb.tidy with }
    { hb.closed with accessors := Array.forall_mem_push.mpr ⟨hproperty, hb.closed.accessors⟩ } rfl
    (.pushAccessor hdone)

section Body

variable (hbodies : done.bodies < b.module.typeDefs.size)

include hbodies

section Methods

variable (hsignatures : done.signatures ≤ b.module.methods.size)

include hsignatures

lemma withMethod_advances (hblob : blob ≠ []) (hpush : b.module.blobs.push blob = .ok (offset, blobs)) (flags : Nat)
    (name : String) : b.Advances done (b.withMethod flags name offset blobs) := by
  have hc := intern_advances done hb name
  obtain ⟨hd, -⟩ := pushBlob_spec done hc.sound hblob hpush
  have hclosed : (b.withMethod flags name offset blobs).module.Closed :=
    { hb.closed with
      owners := fun param hmem =>
        Module.defines_mono (hb.closed.owners param hmem) (Nat.le_refl _) (Module.size_le_push _ _) }
  exact hc.trans (hd.trans
    (hd.sound.advances (hd.sound.tidy.pushMethod rfl) hclosed rfl (.pushMethod rfl hbodies hsignatures)))

/-- A method goes behind those of the open type. -/
lemma addMethod_spec (h : run (addMethod flags name sig names) b = (.ok row, b')) :
    b.Appends done b' 1 0 ∧ row = b.module.methods.size + 1 ∧ b'.module.genericParams = b.module.genericParams ∧
      b'.module.MethodAt row flags name sig names := by
  obtain ⟨-, -, -, hhead⟩ := addMethod_head hb.tidy.strings h
  obtain ⟨-, blob, offset, blobs, -, hwrite, hpush, rfl, rfl⟩ := run_addMethod_ok h
  have hc := withMethod_advances done hb hbodies hsignatures (methodSig_ne_nil hwrite) hpush flags name
  have hsize : (b.module.methods.push (methodRow b flags name offset)).size = b.module.methods.size + 1 :=
    Array.size_push _
  have hd := withParams_advances done hc.sound 1 names (Nat.lt_of_lt_of_eq (Nat.lt_succ_of_le hsignatures) hsize.symm)
  obtain ⟨-, -, -, hat⟩ := withParams_spec _ 1 names hc.sound.tidy.strings
  obtain ⟨strings, params, hcount, heq⟩ := (b.withMethod flags name offset blobs).withParams_eq 1 names
  replace hcount : params.size = b.module.params.size + names.length := hcount
  rw [heq] at hd hhead hat ⊢
  refine ⟨⟨hc.trans hd, rfl, hsize, rfl, Nat.le_refl _, fun rows hrows => ?_, (List.append_nil _).symm⟩, rfl, rfl, hhead,
    _, ?_, hat⟩
  · change Module.owned .typeDef b.module.typeDefs TypeDefRow.methodList
      (b.module.methods.push (methodRow b flags name offset)).size b.module.typeDefs.size = _
    rw [hsize]
    exact Module.owned_last hb.tidy.methodLists hrows
  · change Module.owned .methodDef (b.module.methods.push (methodRow b flags name offset)) MethodRow.paramList
      params.size (b.module.methods.size + 1) = _
    have hlist : (methodRow b flags name offset).paramList = b.module.params.size + 1 := rfl
    rw [hcount]
    exact Module.owned_new hlist names.length

section Accessors

variable (hproperty : property ≤ b.module.properties.size) (hdone : done.properties < property)

include hproperty hdone

lemma addAccessor_spec {isThere reads : Bool}
    (h : run (addAccessor isThere reads name sig names property) b = (.ok (), b')) :
    b.Appends done b' isThere.toNat 0 := by
  cases isThere with
  | false =>
    obtain ⟨-, rfl⟩ := Prod.mk.inj h
    exact Advances.appends ⟨hb, .refl done _⟩ (.refl b) (Nat.le_refl _) rfl
  | true =>
    obtain ⟨method, c, hadd, hlast⟩ := run_bind_ok h
    obtain ⟨hc, rfl, -⟩ := addMethod_spec done hb hbodies hsignatures hadd
    obtain ⟨-, rfl⟩ := Prod.mk.inj hlast
    have he := hc.sound.pushAccessor done ⟨reads, !reads, b.module.methods.size + 1, property⟩
      (Nat.le_trans hproperty (Nat.le_of_eq hc.properties.symm)) hdone
    exact hc.trans (he.appends ⟨rfl, rfl, rfl, rfl⟩ (Nat.le_refl _) rfl)

lemma addAccessors_spec (h : run (addAccessors name type getter setter property) b = (.ok row, b')) :
    b.Appends done b' (getter.toNat + setter.toNat) 0 ∧ row = property := by
  obtain ⟨_, c, hgetter, h1⟩ := run_bind_ok h
  have hc := addAccessor_spec done hb hbodies hsignatures hproperty hdone hgetter
  obtain ⟨_, d, hsetter, hend⟩ := run_bind_ok h1
  have hsignatures' : done.signatures ≤ c.module.methods.size := by
    rw [hc.methods]
    omega
  have hd := addAccessor_spec done hc.sound (Nat.lt_of_lt_of_eq hbodies hc.types.symm) hsignatures'
    (Nat.le_trans hproperty (Nat.le_of_eq hc.properties.symm)) hdone hsetter
  obtain ⟨hrow, rfl⟩ := Prod.mk.inj hend
  exact ⟨hc.trans hd, (Except.ok.inj hrow).symm⟩

end Accessors

end Methods

/-- The list of properties of the last type is the last list. -/
lemma withList_spec :
    let c := b.withList b.module.typeDefs.size
    b.Advances done c ∧
      c.module.propertiesOf b.module.typeDefs.size = b.module.propertiesOf b.module.typeDefs.size ∧
      ∃ before map, c.module.propertyMaps.toList = before ++ [map] ∧ map.parent = b.module.typeDefs.size ∧
        ∀ other ∈ before, other.parent ≠ b.module.typeDefs.size := by
  unfold withList
  split
  · rename_i hback
    exact ⟨⟨hb, .refl done _⟩, rfl, hb.tidy.last_list hback⟩
  · rename_i hback
    have habsent := hb.tidy.parent_absent hback
    have hnew : ∀ map ∈ b.module.propertyMaps, map.parent ≠ b.module.typeDefs.size :=
      fun map hmem => habsent map (Array.mem_toList_iff.mpr hmem)
    exact ⟨hb.advances (hb.tidy.pushPropertyMap rfl rfl hnew) { hb.closed with } rfl (.pushPropertyMap rfl hbodies),
      hb.tidy.propertiesOf_open hback _, b.module.propertyMaps.toList, _, Array.toList_push, rfl, habsent⟩

omit hbodies in
lemma Sound.pushProperty (row : PropertyRow)
    (hdone : ∀ map, b.module.propertyMaps.back? = some map → done.bodies < map.parent) :
    b.Advances done { b with module := { b.module with properties := b.module.properties.push row } } :=
  hb.advances (hb.tidy.pushProperty row)
    { hb.closed with
      accessors := fun accessor hmem => Nat.le_trans (hb.closed.accessors accessor hmem) (Module.size_le_push _ _) }
    rfl (.pushProperty row hdone)

/-- A property goes behind those of the open type, and its accessors behind the methods. -/
lemma addProperty_spec (hsignatures : done.signatures ≤ b.module.methods.size)
    (hproperties : done.properties ≤ b.module.properties.size)
    (h : run (addProperty name type getter setter) b = (.ok row, b')) :
    b.Appends done b' (getter.toNat + setter.toNat) 1 ∧ row = b.module.properties.size + 1 ∧
      b'.module.PropertyAt row name type ∧
      accessorRows b'.module row = accessorRowsFrom getter setter (b.module.methods.size + 1) row ∧
      (∀ method ∈ List.range' (b.module.methods.size + 1) (getter.toNat + setter.toNat),
        b'.module.SpecialAt method) := by
  obtain ⟨hgrown, hat, hspecial⟩ := addProperty_head hb.tidy.strings h
  obtain ⟨owner, maps, blob, offset, blobs, hopen, hmaps, hwrite, hpush, hrun⟩ := run_addProperty_ok h
  obtain ⟨-, rfl⟩ := hb.opened owner hopen
  obtain ⟨hc, hsame, before, map, hlast, hparent, hothers⟩ := withList_spec done hb hbodies
  rw [hmaps] at hc hsame hlast
  replace hlast : maps.toList = before ++ [map] := hlast
  have hback : ∀ other, maps.back? = some other → done.bodies < other.parent := by
    intro other hother
    rw [← Array.getLast?_toList, hlast, List.getLast?_concat] at hother
    cases hother
    exact hparent ▸ hbodies
  have hd := intern_advances done hc.sound name
  obtain ⟨he, -⟩ := pushBlob_spec done hd.sound (propertySig_ne_nil hwrite) hpush
  have hf := he.sound.pushProperty done ⟨0, (b.module.strings.intern name).1, offset⟩ hback
  have hsize : (b.module.properties.push ⟨0, (b.module.strings.intern name).1, offset⟩).size =
      b.module.properties.size + 1 := Array.size_push _
  have hadded : b.Appends done ((b.withMaps maps).withProperty name offset blobs) 0 1 := by
    refine ⟨hc.trans (hd.trans (he.trans hf)), rfl, rfl, hsize, Nat.le_refl _, fun rows hrows => ?_, ?_⟩
    · exact hrows.trans (congrArg Except.ok (List.append_nil rows).symm)
    · have hstart : map.propertyList ≤ b.module.properties.size + 1 :=
        hc.sound.tidy.propertyLists map (Array.mem_toList_iff.mp (hlast ▸ List.mem_append_right _ (.head _)))
      rw [← hsame]
      change Module.propertiesIn (b.module.properties.push ⟨0, (b.module.strings.intern name).1, offset⟩).size
        b.module.typeDefs.size maps.toList = _
      rw [hsize]
      change _ = Module.propertiesIn b.module.properties.size b.module.typeDefs.size maps.toList ++ _
      rw [hlast]
      exact Module.propertiesIn_add hparent hothers hstart
  obtain ⟨hg, rfl⟩ := addAccessors_spec done hf.sound hbodies hsignatures (Nat.le_of_eq hsize.symm)
    (Nat.lt_succ_of_le hproperties) hrun
  refine ⟨Nat.zero_add (getter.toNat + setter.toNat) ▸ hadded.trans hg, rfl, hat, ?_, hspecial⟩
  have hnone := Module.filter_owner_eq_nil hb.closed.accessors (Nat.lt_succ_self _)
  rw [accessorRows, hgrown.accessors, List.filter_append, hnone]
  cases getter <;> cases setter <;> simp [accessorRowsFrom]

end Body

end Steps

end Builder

end TypeAtlas.Metadata
