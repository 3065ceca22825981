import TypeAtlas.Proofs.BuildCalls

/-!
A ledger of methods and properties. Methods, parameters and properties are listed under their
owners by where the lists begin, not by a column of their own. A journal notes for each call
which rows it added while which type was open, and a ledger says that the lists of a module are
those of the journal. Each change of the tables keeps the ledger, with one more entry where it
adds a row.
-/

namespace TypeAtlas.Metadata

/-- A method with the type that was open when it was added, the row of its first parameter and
the names of its parameters. -/
structure MethodEntry where
  row : Nat
  owner : Nat
  firstParam : Nat
  names : List String
deriving DecidableEq

/-- A property with the type that was open when it was added. -/
structure PropertyEntry where
  row : Nat
  owner : Nat
deriving DecidableEq

def methodEntries (owner : Nat) : Nat → Nat → List (List String) → List MethodEntry
  | _, _, [] => []
  | row, param, names :: lists =>
    ⟨row, owner, param, names⟩ :: methodEntries owner (row + 1) (param + names.length) lists

def BuildCall.paramNames : BuildCall → List (List String)
  | addMethod _ _ _ names | addConstructor _ names => [names]
  | addProperty _ _ getter setter => (if getter then [[]] else []) ++ (if setter then [["value"]] else [])
  | _ => []

def BuildCall.propertyCount : BuildCall → Nat
  | addProperty .. => 1
  | _ => 0

namespace Builder

/-- How many of `count` rows that a call is to add are there after it: all if it succeeds, and
those that it left behind if it fails. -/
def rowsAdded (b : Builder) (call : BuildCall) (count : Nat) (rows : Module → Nat) : Nat :=
  match b.reply call with
  | .ok _ => count
  | .error _ => rows (b.after call).module - rows b.module

def methodsAdded (b : Builder) (call : BuildCall) : List MethodEntry :=
  match b.openType with
  | none => []
  | some owner =>
    (methodEntries owner (b.module.methods.size + 1) (b.module.params.size + 1) call.paramNames).take
      (b.rowsAdded call call.paramNames.length (·.methods.size))

def propertiesAdded (b : Builder) (call : BuildCall) : List PropertyEntry :=
  match b.openType with
  | none => []
  | some owner =>
    (List.range' (b.module.properties.size + 1)
      (b.rowsAdded call call.propertyCount (·.properties.size))).map (⟨·, owner⟩)

def methodJournal (b : Builder) : List BuildCall → List MethodEntry
  | [] => []
  | call :: calls => b.methodsAdded call ++ (b.after call).methodJournal calls

def propertyJournal (b : Builder) : List BuildCall → List PropertyEntry
  | [] => []
  | call :: calls => b.propertiesAdded call ++ (b.after call).propertyJournal calls

def methodRows (type : Nat) (methods : List MethodEntry) : List Nat :=
  (methods.filter (·.owner == type)).map (·.row)

def propertyRows (type : Nat) (properties : List PropertyEntry) : List Nat :=
  (properties.filter (·.owner == type)).map (·.row)

lemma methodRows_append (type : Nat) (methods : List MethodEntry) (entry : MethodEntry) :
    methodRows type (methods ++ [entry]) =
      methodRows type methods ++ (if entry.owner = type then [entry.row] else []) := by
  simp only [methodRows, List.filter_append, List.map_append]
  by_cases howner : entry.owner = type <;> simp [howner]

lemma propertyRows_append (type : Nat) (properties : List PropertyEntry) (entry : PropertyEntry) :
    propertyRows type (properties ++ [entry]) =
      propertyRows type properties ++ (if entry.owner = type then [entry.row] else []) := by
  simp only [propertyRows, List.filter_append, List.map_append]
  by_cases howner : entry.owner = type <;> simp [howner]

/-- The lists of a module are those of the methods and properties that were noted. -/
structure Ledger (b : Builder) (methods : List MethodEntry) (properties : List PropertyEntry) :
    Prop where
  tidy : b.module.Tidy
  opened : ∀ type, b.openType = some type → 1 ≤ type ∧ type = b.module.typeDefs.size
  methodsListed : methods.map (·.row) = List.range' 1 b.module.methods.size
  owners : ∀ entry ∈ methods, 1 ≤ entry.owner ∧ entry.owner ≤ b.module.typeDefs.size
  methodsOf : ∀ type, 1 ≤ type → type ≤ b.module.typeDefs.size →
    b.module.methodsOf type = .ok (methodRows type methods)
  paramsOf : ∀ entry ∈ methods,
    b.module.paramsOf entry.row = .ok (List.range' entry.firstParam entry.names.length)
  named : ∀ entry ∈ methods, b.module.ParamsAt entry.firstParam 1 entry.names
  propertiesListed : properties.map (·.row) = List.range' 1 b.module.properties.size
  propertiesOf : ∀ type, b.module.propertiesOf type = propertyRows type properties

lemma Ledger.initial (assembly : String) : (ofAssembly assembly).Ledger [] [] where
  tidy := (Sound.initial assembly).tidy
  opened := by simp [ofAssembly]
  methodsListed := rfl
  owners := by simp
  methodsOf := by
    intro type hpos hle
    have hnone : (ofAssembly assembly).module.typeDefs.size = 0 := rfl
    omega
  paramsOf := by simp
  named := by simp
  propertiesListed := rfl
  propertiesOf := fun _ => rfl

section Aside

variable {α β : Type} {b b' : Builder}

/-- A change that leaves the lists of types, methods and properties alone. -/
structure Aside (b b' : Builder) : Prop where
  openType : b'.openType = b.openType
  strings : b.module.strings.bytes <+: b'.module.strings.bytes
  typeDefs : b'.module.typeDefs = b.module.typeDefs
  methods : b'.module.methods = b.module.methods
  params : b'.module.params = b.module.params
  maps : b'.module.propertyMaps = b.module.propertyMaps
  properties : b'.module.properties = b.module.properties
  tidy : b.module.Tidy → b'.module.Tidy

lemma Aside.refl (b : Builder) : b.Aside b :=
  ⟨rfl, List.prefix_refl _, rfl, rfl, rfl, rfl, rfl, id⟩

lemma Aside.trans {b'' : Builder} (h : b.Aside b') (h' : b'.Aside b'') : b.Aside b'' where
  openType := h'.openType.trans h.openType
  strings := h.strings.trans h'.strings
  typeDefs := h'.typeDefs.trans h.typeDefs
  methods := h'.methods.trans h.methods
  params := h'.params.trans h.params
  maps := h'.maps.trans h.maps
  properties := h'.properties.trans h.properties
  tidy := h'.tidy ∘ h.tidy

lemma Aside.interned (b : Builder) (text : String) : b.Aside (b.interned text) :=
  { Aside.refl b with
    strings := b.module.strings.bytes_prefix_intern text
    tidy := fun h => h.withStrings (h.strings.intern text) }

lemma Ledger.aside {methods : List MethodEntry} {properties : List PropertyEntry}
    (h : b.Ledger methods properties) (ha : b.Aside b') : b'.Ledger methods properties where
  tidy := ha.tidy h.tidy
  opened := by
    rw [ha.openType, ha.typeDefs]
    exact h.opened
  methodsListed := by
    rw [ha.methods]
    exact h.methodsListed
  owners := by
    rw [ha.typeDefs]
    exact h.owners
  methodsOf := by
    intro type
    rw [Module.methodsOf_eq, ha.typeDefs, ha.methods]
    exact h.methodsOf type
  paramsOf := by
    intro entry hmem
    rw [Module.paramsOf_eq, ha.methods, ha.params]
    exact h.paramsOf entry hmem
  named := by
    intro entry hmem
    exact (h.named entry hmem).mono (ha.params ▸ List.prefix_rfl) ha.strings
  propertiesListed := by
    rw [ha.properties]
    exact h.propertiesListed
  propertiesOf := by
    intro type
    rw [Module.propertiesOf, ha.maps, ha.properties]
    exact h.propertiesOf type

/-- A step that leaves the lists alone, whether it succeeds or fails. -/
def StaysAside (step : Build α) : Prop := ∀ b : Builder, b.Aside (run step b).2

/-- The parts on which no list depends. -/
def Part.beside : List Part :=
  [assemblyRefs, typeRefs, references, typeSpecs, interfaces, constraints, accessors, memberRefs, attributes]

lemma aside_judges : Judges (fun _ step => StaysAside step) Part.beside := by
  refine .ofRelation .refl .trans .interned (fun b _ _ _ _ => ?_) fun hpart hedit b => ?_
  · exact { Aside.refl b with tidy := fun h => { h with } }
  · cases hedit <;>
      first
      | exact { Aside.refl b with tidy := fun h => { h with } }
      | exact absurd hpart (by decide)

lemma addGenericParam_staysAside (owner : GenericOwner) (name : String) :
    StaysAside (addGenericParam owner name) := by
  intro b
  rw [run_addGenericParam]
  refine (Aside.interned b name).trans ?_
  exact { Aside.refl (b.interned name) with tidy := fun h => h.pushGenericParam rfl }

end Aside

section Steps

variable {b : Builder} {methods : List MethodEntry} {properties : List PropertyEntry} {owner : Nat}

lemma methodRows_eq_nil {type : Nat} (h : ∀ entry ∈ methods, entry.owner ≠ type) :
    methodRows type methods = [] := by
  have hnone : methods.filter (·.owner == type) = [] := by
    apply List.filter_eq_nil_iff.mpr
    intro entry hmem
    simpa using h entry hmem
  simp [methodRows, hnone]

lemma Ledger.row_le (h : b.Ledger methods properties) {entry : MethodEntry} (hmem : entry ∈ methods) :
    1 ≤ entry.row ∧ entry.row ≤ b.module.methods.size := by
  have hlisted : entry.row ∈ List.range' 1 b.module.methods.size := by
    rw [← h.methodsListed]
    exact List.mem_map_of_mem hmem
  have hbounds := List.mem_range'_1.mp hlisted
  omega

/-- A type that is defined has no methods, and ends the list before its own. -/
lemma Ledger.pushTypeDef (h : b.Ledger methods properties) {row : TypeDefRow}
    (hlist : row.methodList = b.module.methods.size + 1) :
    Ledger { b with
      module := { b.module with typeDefs := b.module.typeDefs.push row }
      openType := some (b.module.typeDefs.size + 1) } methods properties :=
  { h with
    tidy := h.tidy.pushTypeDef hlist
    opened := by simp
    owners := by
      intro entry hmem
      have howner := h.owners entry hmem
      simp only [Array.size_push]
      omega
    methodsOf := by
      intro type hpos hle
      simp only [Array.size_push] at hle
      rcases Nat.lt_or_ge b.module.typeDefs.size type with hnew | hold
      · obtain rfl : type = b.module.typeDefs.size + 1 := by omega
        rw [methodRows_eq_nil]
        · exact Module.owned_push_self hlist
        · intro entry hmem
          have howner := h.owners entry hmem
          omega
      · rw [← h.methodsOf type hpos hold]
        exact Module.owned_push hlist hold
    named := by
      intro entry hmem
      apply (h.named entry hmem).congr <;> rfl }

lemma getElem?_modify_methodList (table : Array TypeDefRow) (place : Nat) (base : Token) (i : Nat) :
    (table.modify place fun row => { row with base := some base })[i]?.map (·.methodList) =
      table[i]?.map (·.methodList) := by
  rw [Array.getElem?_modify]
  split
  · cases table[i]? <;> rfl
  · rfl

lemma Ledger.withBase (h : b.Ledger methods properties) (type : Nat) (base : Token) :
    (b.withBase type base).Ledger methods properties := by
  have hsize : (b.withBase type base).module.typeDefs.size = b.module.typeDefs.size := by
    simp [Builder.withBase]
  have hcolumn := getElem?_modify_methodList b.module.typeDefs (type - 1) base
  refine { h with tidy := ?_, opened := ?_, owners := ?_, methodsOf := ?_, named := ?_ }
  · refine { h.tidy with methodLists := ?_, parents_le := ?_ }
    · intro row hmem
      obtain ⟨i, hi⟩ := Array.mem_iff_getElem?.mp hmem
      have hlist := hcolumn i
      rw [Builder.withBase] at hi
      dsimp only at hi
      rw [hi, Option.map_some, eq_comm, Option.map_eq_some_iff] at hlist
      obtain ⟨old, hold, heq⟩ := hlist
      rw [← heq]
      exact h.tidy.methodLists old (Array.mem_of_getElem? hold)
    · rw [hsize]
      exact h.tidy.parents_le
  · rw [hsize]
    exact h.opened
  · rw [hsize]
    exact h.owners
  · intro other hpos hle
    rw [hsize] at hle
    rw [← h.methodsOf other hpos hle]
    exact Module.owned_congr hcolumn other
  · intro entry hmem
    apply (h.named entry hmem).congr <;> rfl

section

variable (h : b.Ledger methods properties) (hopen : b.openType = some owner)

include h hopen

lemma Ledger.withMethod
    (flags : Nat) (name : String) (sigOffset : Nat) (blobs : BlobHeap) (names : List String) :
    ((b.withMethod flags name sigOffset blobs).withParams 1 names).Ledger
      (methods ++ [⟨b.module.methods.size + 1, owner, b.module.params.size + 1, names⟩]) properties := by
  obtain ⟨hpositive, rfl⟩ := h.opened owner hopen
  have hinterned : (b.withMethod flags name sigOffset blobs).module.strings.Sound :=
    h.tidy.strings.intern name
  obtain ⟨hsound, hprefix, hrows, hat⟩ := withParams_spec _ 1 names hinterned
  obtain ⟨strings, params, hsize, heq⟩ := (b.withMethod flags name sigOffset blobs).withParams_eq 1 names
  have hcount : (b.module.methods.push (methodRow b flags name sigOffset)).size =
      b.module.methods.size + 1 := Array.size_push _
  have hlist : (methodRow b flags name sigOffset).paramList = b.module.params.size + 1 := rfl
  rw [heq] at hsound hprefix hrows hat ⊢
  have hsize : params.size = b.module.params.size + names.length := hsize
  have hkept : b.module.strings.bytes <+: strings.bytes :=
    (b.module.strings.bytes_prefix_intern name).trans hprefix
  refine
    { h with tidy := ?_, methodsListed := ?_, owners := ?_, methodsOf := ?_, paramsOf := ?_, named := ?_ }
  · have hgrown : b.module.params.size ≤ params.size := by omega
    have htidy := ((h.tidy.withStrings hsound).pushMethod hlist).withParams hgrown
    exact { htidy with }
  · change _ = List.range' 1 (b.module.methods.push (methodRow b flags name sigOffset)).size
    rw [hcount, List.map_append, h.methodsListed, List.range'_concat]
    simp [Nat.add_comm]
  · intro entry hmem
    rcases List.mem_append.mp hmem with hold | hnew
    · exact h.owners entry hold
    · rw [List.mem_singleton.mp hnew]
      exact ⟨hpositive, Nat.le_refl _⟩
  · intro type hpos hle
    change Module.owned .typeDef b.module.typeDefs TypeDefRow.methodList
      (b.module.methods.push (methodRow b flags name sigOffset)).size type = _
    have hle : type ≤ b.module.typeDefs.size := hle
    have hold := h.methodsOf type hpos hle
    rw [hcount, methodRows_append]
    by_cases htype : b.module.typeDefs.size = type
    · subst htype
      rw [if_pos rfl]
      exact Module.owned_last h.tidy.methodLists hold
    · rw [if_neg htype, List.append_nil, ← hold]
      exact Module.owned_grow _ (by omega)
  · intro entry hmem
    change Module.owned .methodDef (b.module.methods.push (methodRow b flags name sigOffset))
      MethodRow.paramList params.size entry.row = _
    rcases List.mem_append.mp hmem with hold | hnew
    · have hrow := (h.row_le hold).2
      rw [← h.paramsOf entry hold]
      calc
        _ = Module.owned .methodDef (b.module.methods.push (methodRow b flags name sigOffset))
            MethodRow.paramList b.module.params.size entry.row := Module.owned_grow _ (by omega)
        _ = _ := Module.owned_push hlist hrow
    · rw [List.mem_singleton.mp hnew, hsize]
      exact Module.owned_new hlist names.length
  · intro entry hmem
    rcases List.mem_append.mp hmem with hold | hnew
    · apply (h.named entry hold).mono
      · exact hrows
      · exact hkept
    · rw [List.mem_singleton.mp hnew]
      exact hat

/-- A list that is opened holds no property. -/
lemma Ledger.withList : (b.withList owner).Ledger methods properties := by
  obtain ⟨-, rfl⟩ := h.opened owner hopen
  unfold Builder.withList
  split
  · exact h
  · rename_i hback
    refine { h with tidy := ?_, named := ?_, propertiesOf := ?_ }
    · apply h.tidy.pushPropertyMap rfl rfl
      intro map hmem
      exact h.tidy.parent_absent hback map (Array.mem_toList_iff.mpr hmem)
    · intro entry hmem
      apply (h.named entry hmem).congr <;> rfl
    · intro type
      rw [← h.propertiesOf type]
      exact h.tidy.propertiesOf_open hback type

/-- A property goes to the open type once the last list is its own. -/
lemma Ledger.withProperty
    (hback : b.module.propertyMaps.back?.map (·.parent) = some owner) (name : String) (sigOffset : Nat)
    (blobs : BlobHeap) : (b.withProperty name sigOffset blobs).Ledger methods
      (properties ++ [⟨b.module.properties.size + 1, owner⟩]) := by
  obtain ⟨-, rfl⟩ := h.opened owner hopen
  obtain ⟨before, map, hmaps, hparent, habsent⟩ := h.tidy.last_list hback
  have hmem : map ∈ b.module.propertyMaps := by
    rw [← Array.mem_toList_iff, hmaps]
    simp
  have hstart := h.tidy.propertyLists map hmem
  refine { h with tidy := ?_, named := ?_, propertiesListed := ?_, propertiesOf := ?_ }
  · have htidy := (h.tidy.withStrings (h.tidy.strings.intern name)).pushProperty
      ⟨0, (b.module.strings.intern name).1, sigOffset⟩
    exact { htidy with }
  · intro entry hentry
    apply (h.named entry hentry).mono
    · exact List.prefix_rfl
    · exact b.module.strings.bytes_prefix_intern name
  · simp [Builder.withProperty, h.propertiesListed, List.range'_concat, Nat.add_comm]
  · intro type
    rw [propertyRows_append, ← h.propertiesOf type]
    change Module.propertiesIn (b.module.properties.push _).size type b.module.propertyMaps.toList =
      Module.propertiesIn b.module.properties.size type b.module.propertyMaps.toList ++ _
    rw [Array.size_push, hmaps]
    by_cases htype : b.module.typeDefs.size = type
    · subst htype
      rw [if_pos rfl]
      exact Module.propertiesIn_add hparent habsent hstart
    · rw [if_neg htype, List.append_nil]
      apply Module.propertiesIn_grow
      intro other hother
      rw [List.getLast?_concat, Option.some.injEq] at hother
      rw [← hother, hparent]
      exact htype

end

end Steps

end Builder

end TypeAtlas.Metadata
