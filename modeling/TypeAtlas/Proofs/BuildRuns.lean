import TypeAtlas.Metadata.Builder
import TypeAtlas.Proofs.SignatureCodec
import TypeAtlas.Proofs.Tables

/-!
What the building steps do, whether they succeed or fail. A call that adds a method asks for an
open type, encodes the signature and stores it before there is a row; a call that adds a property
opens a list of properties first. Whatever succeeds only adds to the heaps and tables
(`Builder.Grows`), so a row keeps what it was made with.
-/

namespace TypeAtlas.Metadata

namespace Module

variable {m : Module} {sequence : Nat}

/-- Named parameters in rows that follow one another, numbered on from `sequence`. -/
def ParamsAt (m : Module) : Nat → Nat → List String → Prop
  | _, _, [] => True
  | row, sequence, name :: names =>
    (∃ found, m.param row = .ok found ∧ found.sequence = sequence % 0x10000 ∧
      m.strings.get found.name = .ok (Text.untilZero name)) ∧
    m.ParamsAt (row + 1) (sequence + 1) names

lemma ParamsAt.get {names : List String} {row i : Nat} {name : String} (hparams : m.ParamsAt row sequence names)
    (hname : names[i]? = some name) :
    ∃ found, m.param (row + i) = .ok found ∧ found.sequence = (sequence + i) % 0x10000 ∧
      m.strings.get found.name = .ok (Text.untilZero name) := by
  induction names generalizing row sequence i with
  | nil => cases hname
  | cons first names ih =>
    obtain ⟨hfirst, hrest⟩ := hparams
    cases i with
    | zero =>
      cases hname
      exact hfirst
    | succ i =>
      have hfound := ih hrest hname
      rwa [Nat.add_right_comm, Nat.add_right_comm sequence] at hfound

lemma ParamsAt.mono {m' : Module} (hrows : m.params.toList <+: m'.params.toList)
    (hstrings : m.strings.bytes <+: m'.strings.bytes) {names : List String} {row : Nat}
    (hparams : m.ParamsAt row sequence names) : m'.ParamsAt row sequence names := by
  induction names generalizing row sequence with
  | nil => trivial
  | cons name names ih =>
    obtain ⟨⟨found, hrow, hsequence, hname⟩, hrest⟩ := hparams
    have hkept := StringHeap.get_of_prefix hstrings hname
    exact ⟨⟨found, row_of_prefix hrows hrow, hsequence, hkept⟩, ih hrest⟩

lemma ParamsAt.congr {m' : Module} (hrows : m'.params = m.params) (hstrings : m'.strings = m.strings)
    {names : List String} {row : Nat} (hparams : m.ParamsAt row sequence names) : m'.ParamsAt row sequence names := by
  apply hparams.mono
  · exact hrows.symm ▸ List.prefix_rfl
  · exact hstrings.symm ▸ List.prefix_rfl

def MethodHead (m : Module) (row flags : Nat) (name : String) (sig : MethodSig) : Prop :=
  ∃ found blob, m.method row = .ok found ∧ found.flags = flags ∧
    m.strings.get found.name = .ok (Text.untilZero name) ∧
    m.blobs.get found.signature = .ok blob ∧ sig.write = .ok blob

/-- A method that stands for something else in source. -/
def SpecialAt (m : Module) (row : Nat) : Prop :=
  ∃ found text, m.method row = .ok found ∧ found.flags = Builder.ordinaryFlags + Builder.specialName ∧
    m.strings.get found.name = .ok text

def PropertyAt (m : Module) (row : Nat) (name : String) (type : SigType) : Prop :=
  ∃ found blob, m.property row = .ok found ∧ m.strings.get found.name = .ok (Text.untilZero name) ∧
    m.blobs.get found.signature = .ok blob ∧ PropertySig.write ⟨true, type, []⟩ = .ok blob

namespace Holds

variable {m' : Module} (h : m.Holds m') {row : Nat} {name : String}

include h

lemma getString {offset : Nat} {text : String} (hget : m.strings.get offset = .ok text) :
    m'.strings.get offset = .ok text :=
  StringHeap.get_of_prefix h.strings hget

lemma methodHead {flags : Nat} {sig : MethodSig} (hhead : m.MethodHead row flags name sig) :
    m'.MethodHead row flags name sig := by
  obtain ⟨found, blob, hrow, hflags, hname, hblob, hwrite⟩ := hhead
  exact ⟨found, blob, row_of_prefix h.methods hrow, hflags, h.getString hname,
    BlobHeap.get_of_prefix h.blobs hblob, hwrite⟩

lemma propertyAt {type : SigType} (hproperty : m.PropertyAt row name type) : m'.PropertyAt row name type := by
  obtain ⟨found, blob, hrow, hname, hblob, hwrite⟩ := hproperty
  exact ⟨found, blob, row_of_prefix h.properties hrow, h.getString hname,
    BlobHeap.get_of_prefix h.blobs hblob, hwrite⟩

lemma specialAt (hspecial : m.SpecialAt row) : m'.SpecialAt row := by
  obtain ⟨found, text, hrow, hflags, hname⟩ := hspecial
  exact ⟨found, text, row_of_prefix h.methods hrow, hflags, h.getString hname⟩

end Holds

end Module

namespace Builder

variable {α β : Type} {b b' b'' : Builder} {getter setter : Bool} {blob : Bytes} {type : SigType}

def run (step : Build α) (b : Builder) : Except Malformed α × Builder :=
  StateT.run (ExceptT.run step) b

lemma run_bind (step : Build α) (f : α → Build β) (b : Builder) : run (step >>= f) b =
    match run step b with
    | (.ok x, b') => run (f x) b'
    | (.error cause, b') => (.error cause, b') := by
  simp only [run, ExceptT.run_bind, StateT.run_bind]
  cases StateT.run (ExceptT.run step) b with
  | mk r b' => cases r <;> rfl

/-- Steps in a row succeed one by one. -/
lemma run_bind_ok {step : Build α} {f : α → Build β} {y : β} (h : run (step >>= f) b = (.ok y, b')) :
    ∃ x c, run step b = (.ok x, c) ∧ run (f x) c = (.ok y, b') := by
  rw [run_bind] at h
  cases hstep : run step b with
  | mk r c =>
    rw [hstep] at h
    cases r with
    | ok x => exact ⟨x, c, rfl, h⟩
    | error cause => cases (Prod.mk.inj h).1

lemma run_map (f : α → β) (step : Build α) (b : Builder) :
    run (f <$> step) b = ((run step b).1.map f, (run step b).2) := by
  rw [map_eq_pure_bind, run_bind]
  cases run step b with
  | mk result c => cases result <;> rfl

lemma run_map_ok {α β : Type} {f : α → β} {step : Build α} {y : β} (h : run (f <$> step) b = (.ok y, b')) :
    ∃ x, run step b = (.ok x, b') := by
  rw [run_map] at h
  cases hrun : run step b with
  | mk result c =>
    rw [hrun] at h
    obtain ⟨hresult, rfl⟩ := Prod.mk.inj h
    cases result with
    | ok x => exact ⟨x, rfl⟩
    | error cause => cases hresult

lemma run_get_bind (f : Builder → Build α) (b : Builder) : run (get >>= f) b = run (f b) b := rfl

lemma run_ofExcept (result : Except Malformed α) (b : Builder) :
    run (MonadExcept.ofExcept result) b = (result, b) := by
  cases result <;> rfl

def interned (b : Builder) (text : String) : Builder :=
  { b with module := { b.module with strings := (b.module.strings.intern text).2 } }

lemma run_intern (text : String) (b : Builder) :
    run (intern text) b = (.ok (b.module.strings.intern text).1, b.interned text) := rfl

def withBlobs (b : Builder) (blobs : BlobHeap) : Builder :=
  { b with module := { b.module with blobs := blobs } }

lemma run_pushBlob (blob : Bytes) (b : Builder) : run (pushBlob blob) b =
    match b.module.blobs.push blob with
    | .ok (offset, blobs) => (.ok offset, b.withBlobs blobs)
    | .error cause => (.error cause, b) := by
  rw [pushBlob, run_get_bind, run_bind, run_ofExcept]
  cases b.module.blobs.push blob <;> rfl

lemma run_pushBlob_ok {offset : Nat} (h : run (pushBlob blob) b = (.ok offset, b')) :
    ∃ blobs, b.module.blobs.push blob = .ok (offset, blobs) ∧ b' = b.withBlobs blobs := by
  rw [run_pushBlob] at h
  cases hpush : b.module.blobs.push blob with
  | error cause =>
    rw [hpush] at h
    cases h
  | ok pushed =>
    rw [hpush] at h
    cases h
    exact ⟨_, rfl, rfl⟩

def genericRow (b : Builder) (owner : GenericOwner) (name : String) : GenericParamRow :=
  ⟨b.module.genericParams.countP (·.owner == owner) % 0x10000, 0, owner,
    (b.module.strings.intern name).1⟩

lemma run_addGenericParam (owner : GenericOwner) (name : String) (b : Builder) :
    run (addGenericParam owner name) b = (.ok (b.module.genericParams.size + 1),
      { b with module := { b.module with
        strings := (b.module.strings.intern name).2
        genericParams := b.module.genericParams.push (genericRow b owner name) } }) := by
  rw [← Array.size_push (genericRow b owner name)]
  rfl

def typeRow (b : Builder) (flags : Nat) (ns name : String) (base : Option Token) : TypeDefRow :=
  ⟨flags, (b.module.strings.intern name).1, ((b.module.strings.intern name).2.intern ns).1, base,
    b.module.methods.size + 1⟩

lemma run_defineType (flags : Nat) (ns name : String) (base : Option Token) (b : Builder) :
    run (defineType flags ns name base) b = (.ok (b.module.typeDefs.size + 1),
      { b with
        module := { b.module with
          strings := ((b.module.strings.intern name).2.intern ns).2
          typeDefs := b.module.typeDefs.push (typeRow b flags ns name base) }
        openType := some (b.module.typeDefs.size + 1) }) := by
  rw [← Array.size_push (typeRow b flags ns name base)]
  rfl

/-- The builder with one more reference to an assembly. -/
def withAssembly (b : Builder) (offset : Nat) : Builder :=
  { b with module := { b.module with assemblyRefs := b.module.assemblyRefs.push ⟨offset⟩ } }

lemma run_assemblyReference (name : String) (b : Builder) : run (assemblyReference name) b =
    match b.module.assemblyRefs.findIdx? (·.name == (b.module.strings.intern name).1) with
    | some i => (.ok (i + 1), b.interned name)
    | none => (.ok (b.module.assemblyRefs.size + 1),
        (b.interned name).withAssembly (b.module.strings.intern name).1) := by
  have hrefs : (b.interned name).module.assemblyRefs = b.module.assemblyRefs := rfl
  rw [assemblyReference, run_bind, run_intern]
  dsimp only
  rw [run_get_bind, hrefs]
  cases b.module.assemblyRefs.findIdx? (·.name == (b.module.strings.intern name).1) <;> rfl

def referenceRow (b : Builder) (scope : RefScope) (ns name : String) : TypeRefRow :=
  ⟨scope, (b.module.strings.intern name).1, ((b.module.strings.intern name).2.intern ns).1⟩

def withReference (b : Builder) (scope : RefScope) (ns name : String) : Module :=
  { b.module with
    strings := ((b.module.strings.intern name).2.intern ns).2
    typeRefs := b.module.typeRefs.push (referenceRow b scope ns name) }

/-- The builder with one more reference to a type, which is filed under its key. -/
def withFiled (b : Builder) (scope : RefScope) (ns name : String) : Builder :=
  { b with
    module := b.withReference scope ns name
    references := ((scope, ns, name), b.module.typeRefs.size + 1) :: b.references }

lemma run_typeReference (scope : RefScope) (ns name : String) (b : Builder) :
    run (typeReference scope ns name) b =
    match b.references.lookup (scope, ns, name) with
    | some row => (.ok (.reference row), b)
    | none => (.ok (.reference (b.module.typeRefs.size + 1)), b.withFiled scope ns name) := by
  rw [typeReference, run_get_bind]
  cases b.references.lookup (scope, ns, name) with
  | some row => rfl
  | none =>
    dsimp only
    rw [withFiled, ← Array.size_push (referenceRow b scope ns name)]
    rfl

def withParam (b : Builder) (sequence : Nat) (name : String) : Builder :=
  { b with module := { b.module with
    strings := (b.module.strings.intern name).2
    params := b.module.params.push ⟨0, sequence % 0x10000, (b.module.strings.intern name).1⟩ } }

/-- The builder with named parameters for the last method, numbered on from `sequence`. -/
def withParams (b : Builder) : Nat → List String → Builder
  | _, [] => b
  | sequence, name :: names => (b.withParam sequence name).withParams (sequence + 1) names

lemma run_addParams (sequence : Nat) (names : List String) (b : Builder) :
    run (addParams sequence names) b = (.ok (), b.withParams sequence names) := by
  induction names generalizing sequence b with
  | nil => rfl
  | cons name names ih =>
    change run (addParams (sequence + 1) names) (b.withParam sequence name) = _
    rw [ih]
    rfl

/-- Parameters take a row each and change nothing but their table and the texts. -/
lemma withParams_eq (b : Builder) (sequence : Nat) (names : List String) :
    ∃ strings params, params.size = b.module.params.size + names.length ∧
      b.withParams sequence names =
        { b with module := { b.module with strings := strings, params := params } } := by
  induction names generalizing sequence b with
  | nil => exact ⟨b.module.strings, b.module.params, rfl, rfl⟩
  | cons name names ih =>
    obtain ⟨strings, params, hsize, heq⟩ := ih (b.withParam sequence name) (sequence + 1)
    refine ⟨strings, params, ?_, ?_⟩
    · rw [hsize, List.length_cons]
      simp only [withParam, Array.size_push]
      omega
    · rw [withParams, heq]
      rfl

lemma withParams_spec (b : Builder) (sequence : Nat) (names : List String)
    (hsound : b.module.strings.Sound) :
    let m := (b.withParams sequence names).module
    m.strings.Sound ∧ b.module.strings.bytes <+: m.strings.bytes ∧
      b.module.params.toList <+: m.params.toList ∧ m.ParamsAt (b.module.params.size + 1) sequence names := by
  induction names generalizing b sequence with
  | nil => exact ⟨hsound, List.prefix_rfl, List.prefix_rfl, trivial⟩
  | cons name names ih =>
    have hget := StringHeap.get_intern hsound name
    have hgrows := b.module.strings.bytes_prefix_intern name
    have hparam : (b.withParam sequence name).module.param (b.module.params.size + 1) =
        .ok ⟨0, sequence % 0x10000, (b.module.strings.intern name).1⟩ := Module.row_push_self _ _
    have hcount : (b.withParam sequence name).module.params.size = b.module.params.size + 1 :=
      Array.size_push _
    obtain ⟨hsound', hprefix, hrows, hat⟩ :=
      ih (b.withParam sequence name) (sequence + 1) (hsound.intern name)
    rw [hcount] at hat
    refine ⟨hsound', hgrows.trans hprefix, (Module.prefix_push _ _).trans hrows,
      ⟨_, Module.row_of_prefix hrows hparam, rfl, ?_⟩, hat⟩
    exact StringHeap.get_of_prefix hprefix hget

def methodRow (b : Builder) (flags : Nat) (name : String) (sigOffset : Nat) : MethodRow :=
  ⟨flags, (b.module.strings.intern name).1, sigOffset, b.module.params.size + 1⟩

/-- The builder with a method that has no parameters yet. -/
def withMethod (b : Builder) (flags : Nat) (name : String) (sigOffset : Nat) (blobs : BlobHeap) :
    Builder :=
  { b with module := { b.module with
    strings := (b.module.strings.intern name).2
    blobs := blobs
    methods := b.module.methods.push (methodRow b flags name sigOffset) } }

lemma run_requireType (b : Builder) : run requireType b = run (match b.openType with
    | some type => pure type
    | none => throw .noOpenType) b := rfl

lemma run_addMethod (flags : Nat) (name : String) (sig : MethodSig) (names : List String)
    (b : Builder) : run (addMethod flags name sig names) b =
    match b.openType with
    | none => (.error .noOpenType, b)
    | some _ =>
      match sig.write with
      | .error cause => (.error cause, b)
      | .ok blob =>
        match b.module.blobs.push blob with
        | .error cause => (.error cause, b.interned name)
        | .ok (offset, blobs) => (.ok (b.module.methods.size + 1),
            (b.withMethod flags name offset blobs).withParams 1 names) := by
  rw [addMethod, run_bind, run_requireType]
  cases b.openType with
  | none => rfl
  | some type =>
    change run _ b = _
    rw [run_bind, run_ofExcept]
    cases sig.write with
    | error cause => rfl
    | ok blob =>
      dsimp only
      rw [run_bind, run_intern]
      dsimp only
      have hblobs : (b.interned name).module.blobs = b.module.blobs := rfl
      rw [run_bind, run_pushBlob, hblobs]
      cases b.module.blobs.push blob with
      | error cause => rfl
      | ok pushed =>
        obtain ⟨offset, blobs⟩ := pushed
        have hsize : ((b.withMethod flags name offset blobs).withParams 1 names).module.methods.size =
            b.module.methods.size + 1 := by
          obtain ⟨_, _, -, heq⟩ := (b.withMethod flags name offset blobs).withParams_eq 1 names
          rw [heq]
          exact Array.size_push _
        dsimp only
        rw [run_bind]
        change run _ (b.withMethod flags name offset blobs) = _
        rw [run_bind, run_addParams, ← hsize]
        rfl

lemma run_addMethod_ok {flags row : Nat} {name : String} {sig : MethodSig} {names : List String}
    (h : run (addMethod flags name sig names) b = (.ok row, b')) :
    ∃ owner blob offset blobs, b.openType = some owner ∧ sig.write = .ok blob ∧
      b.module.blobs.push blob = .ok (offset, blobs) ∧ row = b.module.methods.size + 1 ∧
      b' = (b.withMethod flags name offset blobs).withParams 1 names := by
  rw [run_addMethod] at h
  split at h
  · cases h
  · rename_i owner hopen
    split at h
    · cases h
    · rename_i blob hwrite
      split at h
      · cases h
      · rename_i offset blobs hpush
        obtain ⟨hrow, rfl⟩ := Prod.mk.inj h
        cases hrow
        exact ⟨owner, blob, offset, blobs, hopen, hwrite, hpush, rfl, rfl⟩

def withBase (b : Builder) (type : Nat) (base : Token) : Builder :=
  { b with module := { b.module with
    typeDefs := b.module.typeDefs.modify (type - 1) fun row => { row with base := some base } } }

lemma run_setBase (type : Nat) (base : Token) (b : Builder) : run (setBase type base) b =
    if type = 0 ∨ b.module.typeDefs.size < type then (.error (.absentBase type), b)
    else (.ok (), b.withBase type base) := by
  rw [setBase, run_get_bind]
  split <;> rfl

def withMaps (b : Builder) (maps : Array PropertyMapRow) : Builder :=
  { b with module := { b.module with propertyMaps := maps } }

/-- The builder with a list of properties for a type, which is opened unless the last one is
its own. -/
def withList (b : Builder) (type : Nat) : Builder :=
  if b.module.propertyMaps.back?.map (·.parent) = some type then b
  else b.withMaps (b.module.propertyMaps.push ⟨type, b.module.properties.size + 1⟩)

lemma withList_eq (b : Builder) (type : Nat) : ∃ maps, b.withList type = b.withMaps maps := by
  unfold withList
  split
  · exact ⟨b.module.propertyMaps, rfl⟩
  · exact ⟨_, rfl⟩

lemma back_withList (b : Builder) (type : Nat) :
    (b.withList type).module.propertyMaps.back?.map (·.parent) = some type := by
  unfold withList
  split
  · assumption
  · simp [withMaps]

lemma run_openProperties_eq (type : Nat) (b : Builder) :
    run (openProperties type) b = (.ok (), b.withList type) := by
  unfold withList
  split
  · rename_i hback
    change (_, { b with module := if _ then _ else _ }) = _
    rw [if_pos hback]
  · rename_i hback
    change (_, { b with module := if _ then _ else _ }) = _
    rw [if_neg hback]
    rfl

/-- The builder with a property that has no accessors yet. -/
def withProperty (b : Builder) (name : String) (sigOffset : Nat) (blobs : BlobHeap) : Builder :=
  { b with module := { b.module with
    strings := (b.module.strings.intern name).2
    blobs := blobs
    properties := b.module.properties.push ⟨0, (b.module.strings.intern name).1, sigOffset⟩ } }

/-- The methods that read and write a property. -/
def addAccessors (name : String) (type : SigType) (getter setter : Bool) (property : Nat) :
    Build Nat := do
  addAccessor getter true ("get_" ++ name) (instanceSig type []) [] property
  addAccessor setter false ("set_" ++ name) (instanceSig (.builtin .void) [type]) ["value"] property
  pure property

/-- All that adding a property can do before its accessors are added. -/
lemma run_addProperty (name : String) (type : SigType) (getter setter : Bool) (b : Builder) :
    run (addProperty name type getter setter) b =
    match b.openType with
    | none => (.error .noOpenType, b)
    | some owner =>
      match PropertySig.write ⟨true, type, []⟩ with
      | .error cause => (.error cause, b.withList owner)
      | .ok blob =>
        match (b.withList owner).module.blobs.push blob with
        | .error cause => (.error cause, (b.withList owner).interned name)
        | .ok (offset, blobs) =>
          run (addAccessors name type getter setter ((b.withList owner).module.properties.size + 1))
            ((b.withList owner).withProperty name offset blobs) := by
  rw [addProperty, run_bind, run_requireType]
  cases b.openType with
  | none => rfl
  | some owner =>
    change run _ b = _
    rw [run_bind, run_openProperties_eq]
    dsimp only
    rw [run_bind, run_ofExcept]
    cases PropertySig.write ⟨true, type, []⟩ with
    | error cause => rfl
    | ok blob =>
      dsimp only
      rw [run_bind, run_intern]
      dsimp only
      have hblobs : ((b.withList owner).interned name).module.blobs = (b.withList owner).module.blobs := rfl
      rw [run_bind, run_pushBlob, hblobs]
      cases (b.withList owner).module.blobs.push blob with
      | error cause => rfl
      | ok pushed =>
        obtain ⟨offset, blobs⟩ := pushed
        have hsize : ((b.withList owner).withProperty name offset blobs).module.properties.size =
            (b.withList owner).module.properties.size + 1 := by
          simp [withProperty]
        rw [← hsize]
        rfl

lemma run_addProperty_ok {name : String} {row : Nat}
    (h : run (addProperty name type getter setter) b = (.ok row, b')) :
    ∃ owner maps blob offset blobs, b.openType = some owner ∧ b.withList owner = b.withMaps maps ∧
      PropertySig.write ⟨true, type, []⟩ = .ok blob ∧ b.module.blobs.push blob = .ok (offset, blobs) ∧
      run (addAccessors name type getter setter (b.module.properties.size + 1))
        ((b.withMaps maps).withProperty name offset blobs) = (.ok row, b') := by
  rw [run_addProperty] at h
  split at h
  · cases h
  · rename_i owner hopen
    obtain ⟨maps, hmaps⟩ := b.withList_eq owner
    rw [hmaps] at h
    split at h
    · cases h
    · rename_i blob hwrite
      split at h
      · cases h
      · rename_i offset blobs hpush
        exact ⟨owner, maps, blob, offset, blobs, hopen, hmaps, hwrite, hpush, h⟩

lemma methodSig_ne_nil {sig : MethodSig} (h : sig.write = .ok blob) : blob ≠ [] := by
  rw [MethodSig.write_eq] at h
  obtain ⟨_, -, h⟩ := bind_eq_ok h
  obtain ⟨_, -, h⟩ := bind_eq_ok h
  obtain ⟨_, -, h⟩ := bind_eq_ok h
  obtain ⟨_, -, h⟩ := bind_eq_ok h
  cases h
  exact List.cons_ne_nil _ _

lemma propertySig_ne_nil {sig : PropertySig} (h : sig.write = .ok blob) : blob ≠ [] := by
  unfold PropertySig.write at h
  obtain ⟨_, -, h⟩ := bind_eq_ok h
  obtain ⟨_, -, h⟩ := bind_eq_ok h
  obtain ⟨_, -, h⟩ := bind_eq_ok h
  cases h
  exact List.cons_ne_nil _ _

/-- The accessors of a property, in table order. -/
def accessorRows (m : Module) (property : Nat) : List AccessorRow :=
  m.accessors.toList.filter (·.property == property)

/-- The methods that belong to a property with a getter or a setter, from a row on. -/
def accessorRowsFrom (getter setter : Bool) (method property : Nat) : List AccessorRow :=
  (if getter then [⟨true, false, method, property⟩] else []) ++
    (if setter then [⟨false, true, method + getter.toNat, property⟩] else [])

section Growing

variable {types types' : Nat} {accessors accessors' : List AccessorRow} {generics generics' : List GenericParamRow}

/-- The second builder has what the first has, and so many types, these accessors and these
generic parameters more. -/
structure Grows (b b' : Builder) (types : Nat) (accessors : List AccessorRow)
    (generics : List GenericParamRow) : Prop extends b.module.Holds b'.module where
  types : b'.module.typeDefs.size = b.module.typeDefs.size + types
  accessors : b'.module.accessors.toList = b.module.accessors.toList ++ accessors
  generics : b'.module.genericParams.toList = b.module.genericParams.toList ++ generics

namespace Grows

lemma refl (b : Builder) : b.Grows b 0 [] [] where
  toHolds := .refl _
  types := rfl
  accessors := (List.append_nil _).symm
  generics := (List.append_nil _).symm

lemma trans (h : b.Grows b' types accessors generics) (h' : b'.Grows b'' types' accessors' generics') :
    b.Grows b'' (types + types') (accessors ++ accessors') (generics ++ generics') where
  toHolds := h.toHolds.trans h'.toHolds
  types := by rw [h'.types, h.types, Nat.add_assoc]
  accessors := by rw [h'.accessors, h.accessors, List.append_assoc]
  generics := by rw [h'.generics, h.generics, List.append_assoc]

end Grows

end Growing

section Members

variable {flags row property : Nat} {name : String} {sig : MethodSig} {names : List String}

lemma addMethod_head (hsound : b.module.strings.Sound)
    (h : run (addMethod flags name sig names) b = (.ok row, b')) :
    b.Grows b' 0 [] [] ∧ b'.module.methods.size = b.module.methods.size + 1 ∧ b'.module.strings.Sound ∧
      b'.module.MethodHead (b.module.methods.size + 1) flags name sig := by
  obtain ⟨owner, blob, offset, blobs, -, hwrite, hpush, -, rfl⟩ := run_addMethod_ok h
  have hinterned : (b.withMethod flags name offset blobs).module.strings.Sound := hsound.intern name
  have hname := StringHeap.get_intern hsound name
  obtain ⟨hblobs, hblob⟩ := BlobHeap.push_spec (methodSig_ne_nil hwrite) hpush
  obtain ⟨hsound', hprefix, -, -⟩ := withParams_spec _ 1 names hinterned
  obtain ⟨strings, params, -, heq⟩ := (b.withMethod flags name offset blobs).withParams_eq 1 names
  rw [heq] at hsound' hprefix ⊢
  have hkept := (b.module.strings.bytes_prefix_intern name).trans hprefix
  refine ⟨{ Grows.refl b with strings := hkept, blobs := hblobs, methods := Module.prefix_push _ _ }, Array.size_push _,
    hsound', ?_⟩
  exact ⟨methodRow b flags name offset, blob, Module.row_push_self _ _, rfl,
    StringHeap.get_of_prefix hprefix hname, hblob, hwrite⟩

lemma addAccessor_head {isThere reads : Bool} (hsound : b.module.strings.Sound)
    (h : run (addAccessor isThere reads name sig names property) b = (.ok (), b')) :
    b.Grows b' 0 (if isThere then [⟨reads, !reads, b.module.methods.size + 1, property⟩] else []) [] ∧
      b'.module.methods.size = b.module.methods.size + isThere.toNat ∧ b'.module.strings.Sound ∧
      (isThere = true → b'.module.SpecialAt (b.module.methods.size + 1)) := by
  cases isThere with
  | false =>
    obtain ⟨-, rfl⟩ := Prod.mk.inj h
    exact ⟨.refl b, rfl, hsound, nofun⟩
  | true =>
    obtain ⟨method, c, hadd, hlast⟩ := run_bind_ok h
    obtain ⟨-, -, -, -, -, -, -, rfl, -⟩ := run_addMethod_ok hadd
    obtain ⟨hgrows, hsize, hsound', found, blob, hrow, hflags, hname, -, -⟩ := addMethod_head hsound hadd
    obtain ⟨-, rfl⟩ := Prod.mk.inj hlast
    refine ⟨?_, hsize, hsound', fun _ => ⟨found, _, hrow, hflags, hname⟩⟩
    have hnoted : c.Grows { c with module := { c.module with
        accessors := c.module.accessors.push ⟨reads, !reads, b.module.methods.size + 1, property⟩ } } 0
        [⟨reads, !reads, b.module.methods.size + 1, property⟩] [] :=
      { Grows.refl c with accessors := Array.toList_push }
    exact hgrows.trans hnoted

lemma addAccessors_head (hsound : b.module.strings.Sound)
    (h : run (addAccessors name type getter setter property) b = (.ok row, b')) :
    b.Grows b' 0 (accessorRowsFrom getter setter (b.module.methods.size + 1) property) [] ∧
      ∀ method ∈ List.range' (b.module.methods.size + 1) (getter.toNat + setter.toNat),
        b'.module.SpecialAt method := by
  obtain ⟨_, c, hgetter, hrest⟩ := run_bind_ok h
  obtain ⟨hfirst, hsize, hsound', hspecial⟩ := addAccessor_head hsound hgetter
  obtain ⟨_, d, hsetter, hlast⟩ := run_bind_ok hrest
  obtain ⟨hsecond, -, -, hspecial'⟩ := addAccessor_head hsound' hsetter
  obtain ⟨-, rfl⟩ := Prod.mk.inj hlast
  have hplace : c.module.methods.size + 1 = b.module.methods.size + 1 + getter.toNat := by omega
  rw [hplace] at hsecond hspecial'
  refine ⟨?_, fun method hmethod => ?_⟩
  · have hboth := hfirst.trans hsecond
    cases getter <;> cases setter <;> exact hboth
  · rw [← List.range'_append_1, List.mem_append] at hmethod
    rcases hmethod with hread | hwritten
    · cases getter with
      | false => cases hread
      | true => exact hsecond.specialAt (List.mem_singleton.mp hread ▸ hspecial rfl)
    · cases setter with
      | false => cases hwritten
      | true => exact List.mem_singleton.mp hwritten ▸ hspecial' rfl

/-- A property that is added gets the next row, and its accessors the next rows of the methods. -/
lemma addProperty_head (hsound : b.module.strings.Sound)
    (h : run (addProperty name type getter setter) b = (.ok row, b')) :
    b.Grows b' 0 (accessorRowsFrom getter setter (b.module.methods.size + 1) (b.module.properties.size + 1)) [] ∧
      b'.module.PropertyAt (b.module.properties.size + 1) name type ∧
      ∀ method ∈ List.range' (b.module.methods.size + 1) (getter.toNat + setter.toNat),
        b'.module.SpecialAt method := by
  obtain ⟨owner, maps, blob, offset, blobs, -, -, hwrite, hpush, hrun⟩ := run_addProperty_ok h
  obtain ⟨hblobs, hblob⟩ := BlobHeap.push_spec (propertySig_ne_nil hwrite) hpush
  have hkept := b.module.strings.bytes_prefix_intern name
  have hnew : b.Grows ((b.withMaps maps).withProperty name offset blobs) 0 [] [] :=
    { Grows.refl b with strings := hkept, blobs := hblobs, properties := Module.prefix_push _ _ }
  have hproperty : ((b.withMaps maps).withProperty name offset blobs).module.PropertyAt
      (b.module.properties.size + 1) name type :=
    ⟨_, blob, Module.row_push_self _ _, StringHeap.get_intern hsound name, hblob, hwrite⟩
  obtain ⟨hgrows, hspecial⟩ := addAccessors_head (hsound.intern name) hrun
  exact ⟨hnew.trans hgrows, hgrows.propertyAt hproperty, hspecial⟩

end Members

end Builder

end TypeAtlas.Metadata
