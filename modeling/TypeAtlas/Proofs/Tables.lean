import TypeAtlas.Metadata.Module
import TypeAtlas.Proofs.Heaps

/-!
Tables that only grow. A row keeps its place, and a list of rows that is complete stays as
it is when further rows are added behind it. Which lists are complete is said by the rows
up to which they are.
-/

namespace TypeAtlas.Metadata.Module

section Rows

variable {α : Type} {name : TableName} {table : Array α} {i : Nat} {x : α}

lemma row_eq_ok_iff : row name table i = .ok x ↔ ∃ place, i = place + 1 ∧ table[place]? = some x := by
  cases i with
  | zero => simp [row]
  | succ place =>
    rw [row]
    cases hfound : table[place]? <;> simp [hfound]

lemma row_of_prefix {longer : Array α} (hlonger : table.toList <+: longer.toList)
    (h : row name table i = .ok x) : row name longer i = .ok x := by
  obtain ⟨place, rfl, hfound⟩ := row_eq_ok_iff.mp h
  obtain ⟨rest, hrest⟩ := hlonger
  have hlt := (Array.getElem?_eq_some_iff.mp hfound).1
  refine row_eq_ok_iff.mpr ⟨place, rfl, ?_⟩
  rwa [← Array.getElem?_toList, ← hrest, List.getElem?_append_left hlt, Array.getElem?_toList]

lemma prefix_push (table : Array α) (row : α) : table.toList <+: (table.push row).toList := by
  rw [Array.toList_push]
  exact List.prefix_append _ _

lemma row_push (y : α) (h : row name table i = .ok x) : row name (table.push y) i = .ok x :=
  row_of_prefix (prefix_push table y) h

lemma row_push_self (table : Array α) (y : α) : row name (table.push y) (table.size + 1) = .ok y :=
  row_eq_ok_iff.mpr ⟨table.size, rfl, Array.getElem?_push_size⟩

lemma row_le_size (h : row name table i = .ok x) : 1 ≤ i ∧ i ≤ table.size := by
  obtain ⟨place, rfl, hfound⟩ := row_eq_ok_iff.mp h
  have hlt := (Array.getElem?_eq_some_iff.mp hfound).1
  omega

lemma row_mem (h : row name table i = .ok x) : x ∈ table := by
  obtain ⟨place, -, hfound⟩ := row_eq_ok_iff.mp h
  exact Array.mem_of_getElem? hfound

end Rows

/-- The last list takes in a row that is added. -/
lemma listRows_succ {start size : Nat} (h : start ≤ size + 1) :
    listRows start none (size + 1) = listRows start none size ++ [size + 1] := by
  have hcount : size + 1 + 1 - start = (size + 1 - start) + 1 := by omega
  have hlast : start + (size + 1 - start) = size + 1 := by omega
  unfold listRows
  rw [Option.getD_none, Option.getD_none, hcount, List.range'_concat, Nat.one_mul, hlast]

section Owned

variable {α : Type} (name : TableName) (table : Array α) (list : α → Nat) (size : Nat)

/-- The rows that belong to a row of a table whose column `list` says where they begin, of
`size` rows in all. -/
def owned (i : Nat) : Except Malformed (List Nat) := do
  let found ← row name table i
  pure (listRows (list found) (table[i]?.map list) size)

lemma mem_typeDefRows {m : Module} {type : Nat} :
    type ∈ m.typeDefRows ↔ 1 ≤ type ∧ type ≤ m.typeDefs.size := by
  rw [typeDefRows, List.mem_range'_1]
  omega

lemma methodsOf_eq (m : Module) (type : Nat) :
    m.methodsOf type = owned .typeDef m.typeDefs TypeDefRow.methodList m.methods.size type := rfl

lemma paramsOf_eq (m : Module) (method : Nat) :
    m.paramsOf method = owned .methodDef m.methods MethodRow.paramList m.params.size method := rfl

variable {name table list size}

/-- Only the last list changes when rows are added. -/
lemma owned_grow {i : Nat} (size' : Nat) (h : i < table.size) :
    owned name table list size' i = owned name table list size i := by
  unfold owned
  rw [Array.getElem?_eq_getElem h]
  rfl

/-- Which rows belong to an owner depends on the column alone. -/
lemma owned_congr {table' : Array α} (h : ∀ i : Nat, table'[i]?.map list = table[i]?.map list) (i : Nat) :
    owned name table' list size i = owned name table list size i := by
  unfold owned
  rw [h i]
  cases i with
  | zero => rfl
  | succ i =>
    have hi := h i
    unfold row
    dsimp only
    cases hfound : table[i]? with
    | none =>
      rw [hfound, Option.map_none, Option.map_eq_none_iff] at hi
      rw [hi]
    | some found =>
      rw [hfound, Option.map_some, Option.map_eq_some_iff] at hi
      obtain ⟨found', hfound', hlist⟩ := hi
      rw [hfound']
      exact congrArg (fun start => Except.ok (listRows start _ size)) hlist

/-- A new owner begins behind all rows, and so ends the list before its own. -/
lemma owned_push {i : Nat} {y : α} (hlist : list y = size + 1) (h : i ≤ table.size) :
    owned name (table.push y) list size i = owned name table list size i := by
  cases i with
  | zero => rfl
  | succ i =>
    have hlt : i < table.size := h
    have hrow : row name table (i + 1) = .ok table[i] := by
      simp [row, Array.getElem?_eq_getElem hlt]
    unfold owned
    rw [row_push y hrow, hrow]
    rcases Nat.lt_or_ge (i + 1) table.size with hnext | hlast
    · rw [Array.getElem?_push_lt hnext, Array.getElem?_eq_getElem hnext]
    · obtain hsize : i + 1 = table.size := by omega
      rw [hsize, Array.getElem?_push_size, Option.map_some, hlist,
        Array.getElem?_eq_none (Nat.le_refl _)]
      rfl

/-- What is added behind a new owner belongs to it. -/
lemma owned_new {y : α} (hlist : list y = size + 1) (count : Nat) :
    owned name (table.push y) list (size + count) (table.size + 1) = .ok (List.range' (size + 1) count) := by
  have hcount : size + count + 1 - (size + 1) = count := by omega
  unfold owned
  rw [row_push_self, Array.getElem?_eq_none (by simp)]
  change Except.ok (listRows (list y) none (size + count)) = _
  rw [listRows, hlist, Option.getD_none, hcount]

lemma owned_push_self {y : α} (hlist : list y = size + 1) :
    owned name (table.push y) list size (table.size + 1) = .ok [] :=
  owned_new hlist 0

/-- A row that is added belongs to the last owner. -/
lemma owned_last {rows : List Nat} (hbounded : ∀ y ∈ table, list y ≤ size + 1)
    (h : owned name table list size table.size = .ok rows) :
    owned name table list (size + 1) table.size = .ok (rows ++ [size + 1]) := by
  unfold owned at h ⊢
  obtain ⟨found, hrow, h⟩ := bind_eq_ok h
  have hnone : table[table.size]? = none := Array.getElem?_eq_none (Nat.le_refl _)
  have hmem : found ∈ table := row_mem hrow
  rw [hnone] at h ⊢
  cases h
  rw [hrow]
  exact congrArg Except.ok (listRows_succ (hbounded found hmem))

end Owned

lemma rowsWhere_append {α : Type} (p : α → Bool) (start : Nat) (xs : List α) (y : α) :
    rowsWhere p start (xs ++ [y]) =
      rowsWhere p start xs ++ (if p y then [(start + xs.length, y)] else []) := by
  induction xs generalizing start with
  | nil => simp [rowsWhere]
  | cons x xs ih =>
    have hplace : start + 1 + xs.length = start + (x :: xs).length := by
      rw [List.length_cons]
      omega
    rw [List.cons_append, rowsWhere, rowsWhere, ih, hplace]
    split <;> rfl

/-- A property that is added goes to the last list and to no other. -/
lemma propertiesIn_grow {type : Nat} {maps : List PropertyMapRow} (size size' : Nat)
    (hlast : ∀ map, maps.getLast? = some map → map.parent ≠ type) :
    propertiesIn size' type maps = propertiesIn size type maps := by
  induction maps with
  | nil => rfl
  | cons map maps ih =>
    unfold propertiesIn
    split
    · rename_i hparent
      cases maps with
      | nil => exact absurd hparent (hlast map rfl)
      | cons next maps => rfl
    · refine ih fun other hother => hlast other ?_
      cases maps with
      | nil => cases hother
      | cons next maps => exact hother

/-- A list that is opened closes the one before it. -/
lemma propertiesIn_open {type : Nat} {maps : List PropertyMapRow} (size : Nat) {map : PropertyMapRow}
    (hstart : map.propertyList = size + 1) (hparent : map.parent ≠ type) :
    propertiesIn size type (maps ++ [map]) = propertiesIn size type maps := by
  induction maps with
  | nil => simp [propertiesIn, hparent]
  | cons first maps ih =>
    rw [List.cons_append, propertiesIn, propertiesIn, ih]
    split
    · cases maps with
      | nil =>
        simp only [List.nil_append, List.head?_cons, Option.map_some, hstart]
        rfl
      | cons next maps => rfl
    · rfl

lemma propertiesIn_absent {size type : Nat} {maps : List PropertyMapRow}
    (h : ∀ map ∈ maps, map.parent ≠ type) : propertiesIn size type maps = [] := by
  induction maps with
  | nil => rfl
  | cons first maps ih =>
    rw [propertiesIn, if_neg (h first List.mem_cons_self)]
    exact ih (List.forall_mem_cons.mp h).2

section

variable {size type : Nat} {maps : List PropertyMapRow} {map : PropertyMapRow}
  (hparent : map.parent = type) (habsent : ∀ other ∈ maps, other.parent ≠ type)

include hparent habsent

lemma propertiesIn_last :
    propertiesIn size type (maps ++ [map]) = listRows map.propertyList none size := by
  induction maps with
  | nil => simp [propertiesIn, hparent]
  | cons first maps ih =>
    rw [List.cons_append, propertiesIn, if_neg (habsent first List.mem_cons_self)]
    exact ih (List.forall_mem_cons.mp habsent).2

/-- A property that is added goes behind those of the last list. -/
lemma propertiesIn_add (hstart : map.propertyList ≤ size + 1) :
    propertiesIn (size + 1) type (maps ++ [map]) = propertiesIn size type (maps ++ [map]) ++ [size + 1] := by
  rw [propertiesIn_last hparent habsent, propertiesIn_last hparent habsent, listRows_succ hstart]

end

/-- The rows up to which the lists of a module are complete. -/
structure Done where
  /-- Types with all their generic parameters. -/
  headers : Nat
  /-- Types with all their interfaces. -/
  interfaces : Nat
  /-- Types with all their methods and properties. -/
  bodies : Nat
  /-- Methods with all their parameters. -/
  signatures : Nat
  /-- Methods with all their generic parameters. -/
  methods : Nat
  /-- Generic parameters with all their constraints. -/
  generics : Nat
  /-- Properties with all their accessors. -/
  properties : Nat

def Done.covers (done : Done) : GenericOwner → Prop
  | .type row => row ≤ done.headers
  | .method row => row ≤ done.methods

/-- A module that has the texts, blobs, methods and properties of another, each in its place. -/
structure Holds (m m' : Module) : Prop where
  strings : m.strings.bytes <+: m'.strings.bytes
  blobs : m.blobs.bytes <+: m'.blobs.bytes
  methods : m.methods.toList <+: m'.methods.toList
  properties : m.properties.toList <+: m'.properties.toList

/-- A module that holds all that another holds. Lists that were complete are the same. -/
structure Extends (done : Done) (m m' : Module) : Prop extends m.Holds m' where
  assembly : m'.assembly = m.assembly
  attributes : m'.attributes = m.attributes
  typeDefs : m.typeDefs.toList <+: m'.typeDefs.toList
  typeRefs : m.typeRefs.toList <+: m'.typeRefs.toList
  typeSpecs : m.typeSpecs.toList <+: m'.typeSpecs.toList
  assemblyRefs : m.assemblyRefs.toList <+: m'.assemblyRefs.toList
  params : m.params.toList <+: m'.params.toList
  genericParams : m.genericParams.toList <+: m'.genericParams.toList
  methodsOf : ∀ type ≤ done.bodies, m'.methodsOf type = m.methodsOf type
  propertiesOf : ∀ type ≤ done.bodies, m'.propertiesOf type = m.propertiesOf type
  paramsOf : ∀ method ≤ done.signatures, m'.paramsOf method = m.paramsOf method
  genericParamsOf : ∀ owner, done.covers owner → m'.genericParamsOf owner = m.genericParamsOf owner
  constraintsOf : ∀ param ≤ done.generics, m'.constraintsOf param = m.constraintsOf param
  interfacesOf : ∀ type ≤ done.interfaces, m'.interfacesOf type = m.interfacesOf type
  accessorsOf : ∀ property ≤ done.properties, m'.accessorsOf property = m.accessorsOf property

section Growth

variable {done : Done} {m m' m'' : Module}

lemma Holds.refl (m : Module) : m.Holds m :=
  ⟨List.prefix_rfl, List.prefix_rfl, List.prefix_rfl, List.prefix_rfl⟩

lemma Holds.trans (h : m.Holds m') (h' : m'.Holds m'') : m.Holds m'' where
  strings := h.strings.trans h'.strings
  blobs := h.blobs.trans h'.blobs
  methods := h.methods.trans h'.methods
  properties := h.properties.trans h'.properties

namespace Extends

lemma refl (done : Done) (m : Module) : Extends done m m where
  toHolds := .refl m
  assembly := rfl
  attributes := rfl
  typeDefs := List.prefix_rfl
  typeRefs := List.prefix_rfl
  typeSpecs := List.prefix_rfl
  assemblyRefs := List.prefix_rfl
  params := List.prefix_rfl
  genericParams := List.prefix_rfl
  methodsOf _ _ := rfl
  propertiesOf _ _ := rfl
  paramsOf _ _ := rfl
  genericParamsOf _ _ := rfl
  constraintsOf _ _ := rfl
  interfacesOf _ _ := rfl
  accessorsOf _ _ := rfl

lemma trans (h : Extends done m m') (h' : Extends done m' m'') : Extends done m m'' where
  toHolds := h.toHolds.trans h'.toHolds
  assembly := h'.assembly.trans h.assembly
  attributes := h'.attributes.trans h.attributes
  typeDefs := h.typeDefs.trans h'.typeDefs
  typeRefs := h.typeRefs.trans h'.typeRefs
  typeSpecs := h.typeSpecs.trans h'.typeSpecs
  assemblyRefs := h.assemblyRefs.trans h'.assemblyRefs
  params := h.params.trans h'.params
  genericParams := h.genericParams.trans h'.genericParams
  methodsOf type hle := (h'.methodsOf type hle).trans (h.methodsOf type hle)
  propertiesOf type hle := (h'.propertiesOf type hle).trans (h.propertiesOf type hle)
  paramsOf method hle := (h'.paramsOf method hle).trans (h.paramsOf method hle)
  genericParamsOf owner hle := (h'.genericParamsOf owner hle).trans (h.genericParamsOf owner hle)
  constraintsOf param hle := (h'.constraintsOf param hle).trans (h.constraintsOf param hle)
  interfacesOf type hle := (h'.interfacesOf type hle).trans (h.interfacesOf type hle)
  accessorsOf property hle := (h'.accessorsOf property hle).trans (h.accessorsOf property hle)

lemma withStrings {strings : StringHeap} (h : m.strings.bytes <+: strings.bytes) :
    Extends done m { m with strings := strings } :=
  { refl done m with strings := h }

lemma withBlobs {blobs : BlobHeap} (h : m.blobs.bytes <+: blobs.bytes) :
    Extends done m { m with blobs := blobs } :=
  { refl done m with blobs := h }

lemma pushTypeSpec (row : TypeSpecRow) : Extends done m { m with typeSpecs := m.typeSpecs.push row } :=
  { refl done m with typeSpecs := prefix_push _ row }

lemma pushInterface {row : InterfaceRow} (h : done.interfaces < row.type) :
    Extends done m { m with interfaces := m.interfaces.push row } :=
  { refl done m with
    interfacesOf := by
      intro type hle
      have hother : (row.type == type) = false := beq_eq_false_iff_ne.mpr (by omega)
      simp [Module.interfacesOf, hother] }

lemma pushConstraint {row : ConstraintRow} (h : done.generics < row.param) :
    Extends done m { m with constraints := m.constraints.push row } :=
  { refl done m with
    constraintsOf := by
      intro param hle
      have hother : (row.param == param) = false := beq_eq_false_iff_ne.mpr (by omega)
      simp [Module.constraintsOf, hother] }

lemma pushAccessor {row : AccessorRow} (h : done.properties < row.property) :
    Extends done m { m with accessors := m.accessors.push row } :=
  { refl done m with
    accessorsOf := by
      intro property hle
      have hother : (row.property == property) = false := beq_eq_false_iff_ne.mpr (by omega)
      simp [Module.accessorsOf, hother] }

lemma pushGenericParam {row : GenericParamRow} (h : ¬done.covers row.owner) :
    Extends done m { m with genericParams := m.genericParams.push row } :=
  { refl done m with
    genericParams := prefix_push _ row
    genericParamsOf := by
      intro owner hcovers
      have hother : (row.owner == owner) = false := by
        rw [beq_eq_false_iff_ne]
        rintro rfl
        exact h hcovers
      simp [Module.genericParamsOf, rowsWhere_append, hother] }

/-- A parameter goes to the last method. -/
lemma pushParam (row : ParamRow) (h : done.signatures < m.methods.size) :
    Extends done m { m with params := m.params.push row } :=
  { refl done m with
    params := prefix_push _ row
    paramsOf := fun _ hle => owned_grow _ (Nat.lt_of_le_of_lt hle h) }

/-- A method goes to the last type, and closes the list of parameters before it. -/
lemma pushMethod {row : MethodRow} (hlist : row.paramList = m.params.size + 1)
    (hbodies : done.bodies < m.typeDefs.size) (hsignatures : done.signatures ≤ m.methods.size) :
    Extends done m { m with methods := m.methods.push row } :=
  { refl done m with
    methods := prefix_push _ row
    methodsOf := fun _ hle => owned_grow _ (Nat.lt_of_le_of_lt hle hbodies)
    paramsOf := fun _ hle => owned_push hlist (Nat.le_trans hle hsignatures) }

/-- A type closes the list of methods before it. -/
lemma pushTypeDef {row : TypeDefRow} (hlist : row.methodList = m.methods.size + 1)
    (hbodies : done.bodies ≤ m.typeDefs.size) :
    Extends done m { m with typeDefs := m.typeDefs.push row } :=
  { refl done m with
    typeDefs := prefix_push _ row
    methodsOf := fun _ hle => owned_push hlist (Nat.le_trans hle hbodies) }

/-- A property goes to the last list of properties. -/
lemma pushProperty (row : PropertyRow)
    (h : ∀ map, m.propertyMaps.back? = some map → done.bodies < map.parent) :
    Extends done m { m with properties := m.properties.push row } :=
  { refl done m with
    properties := prefix_push _ row
    propertiesOf := by
      intro type hle
      refine propertiesIn_grow _ _ fun map hmap => ?_
      have hparent := h map (by simpa [Array.getLast?_toList] using hmap)
      omega }

lemma pushPropertyMap {row : PropertyMapRow} (hlist : row.propertyList = m.properties.size + 1)
    (h : done.bodies < row.parent) :
    Extends done m { m with propertyMaps := m.propertyMaps.push row } :=
  { refl done m with
    propertiesOf := by
      intro type hle
      have hparent : row.parent ≠ type := by omega
      unfold Module.propertiesOf
      rw [Array.toList_push]
      exact propertiesIn_open m.properties.size hlist hparent }

end Extends

end Growth

/-- Lists begin at rows that exist or come next, and properties are listed type by type. -/
structure Tidy (m : Module) : Prop where
  strings : m.strings.Sound
  methodLists : ∀ row ∈ m.typeDefs, row.methodList ≤ m.methods.size + 1
  paramLists : ∀ row ∈ m.methods, row.paramList ≤ m.params.size + 1
  propertyLists : ∀ row ∈ m.propertyMaps, row.propertyList ≤ m.properties.size + 1
  parents : m.propertyMaps.toList.Pairwise (·.parent < ·.parent)
  parents_le : ∀ row ∈ m.propertyMaps, row.parent ≤ m.typeDefs.size
  numbers : ∀ owner, (rowsWhere (·.owner == owner) 1 m.genericParams.toList).map (·.2.number) =
    (List.range (m.genericParams.countP (·.owner == owner))).map (· % 0x10000)

def defines (m : Module) : GenericOwner → Prop
  | .type row => row ≤ m.typeDefs.size
  | .method row => row ≤ m.methods.size

/-- Lists belong to rows that exist. -/
structure Closed (m : Module) : Prop where
  interfaces : ∀ row ∈ m.interfaces, row.type ≤ m.typeDefs.size
  owners : ∀ row ∈ m.genericParams, m.defines row.owner
  constraints : ∀ row ∈ m.constraints, row.param ≤ m.genericParams.size
  accessors : ∀ row ∈ m.accessors, row.property ≤ m.properties.size

variable {m : Module}

/-- Nothing belongs to an owner behind the last one. -/
lemma filter_owner_eq_nil {α : Type} {rows : Array α} {owner : α → Nat} {size i : Nat}
    (h : ∀ row ∈ rows, owner row ≤ size) (hi : size < i) : rows.toList.filter (owner · == i) = [] := by
  apply List.filter_eq_nil_iff.mpr
  intro row hmem
  have hle := h row (Array.mem_toList_iff.mp hmem)
  rw [beq_iff_eq]
  omega

lemma Closed.interfacesOf (h : m.Closed) {type : Nat} (htype : m.typeDefs.size < type) :
    m.interfacesOf type = [] := by
  rw [Module.interfacesOf, filter_owner_eq_nil h.interfaces htype, List.map_nil]

lemma Closed.constraintsOf (h : m.Closed) {param : Nat} (hparam : m.genericParams.size < param) :
    m.constraintsOf param = [] := by
  rw [Module.constraintsOf, filter_owner_eq_nil h.constraints hparam, List.map_nil]

lemma rowsWhere_eq_nil {α : Type} {p : α → Bool} {start : Nat} {xs : List α}
    (h : ∀ x ∈ xs, p x = false) : rowsWhere p start xs = [] := by
  induction xs generalizing start with
  | nil => rfl
  | cons x xs ih =>
    rw [rowsWhere, h x List.mem_cons_self]
    exact ih (List.forall_mem_cons.mp h).2

lemma Closed.rowsWhere_owner (h : m.Closed) {owner : GenericOwner} (howner : ¬m.defines owner) :
    rowsWhere (·.owner == owner) 1 m.genericParams.toList = [] := by
  refine rowsWhere_eq_nil fun row hmem => ?_
  rw [beq_eq_false_iff_ne]
  rintro rfl
  exact howner (h.owners row (Array.mem_toList_iff.mp hmem))

lemma length_rowsWhere {α : Type} (p : α → Bool) (start : Nat) (xs : List α) :
    (rowsWhere p start xs).length = xs.countP p := by
  induction xs generalizing start with
  | nil => rfl
  | cons x xs ih =>
    rw [rowsWhere, List.countP_cons]
    split <;> simp [ih]

/-- Where no number was given twice, parameters stand in the order in which they were
added. -/
lemma Tidy.genericParamsOf (h : m.Tidy) {owner : GenericOwner}
    (hcount : (rowsWhere (·.owner == owner) 1 m.genericParams.toList).length ≤ 0x10000) :
    m.genericParamsOf owner = (rowsWhere (·.owner == owner) 1 m.genericParams.toList).map (·.1) := by
  have hlength : (rowsWhere (·.owner == owner) 1 m.genericParams.toList).length =
      m.genericParams.countP (·.owner == owner) := by
    rw [length_rowsWhere, Array.countP_toList]
  have hnumbers : (rowsWhere (·.owner == owner) 1 m.genericParams.toList).map (·.2.number) =
      List.range (m.genericParams.countP (·.owner == owner)) := by
    rw [h.numbers owner, ← hlength]
    have hsmall : ∀ n ∈ List.range (rowsWhere (·.owner == owner) 1 m.genericParams.toList).length,
        n % 0x10000 = n := by
      intro n hmem
      have hlt := List.mem_range.mp hmem
      exact Nat.mod_eq_of_lt (by omega)
    rw [List.map_congr_left hsmall, List.map_id']
  have hsorted : ((rowsWhere (·.owner == owner) 1 m.genericParams.toList).map (·.2.number)).Pairwise
      (· ≤ ·) := by
    rw [hnumbers]
    exact List.pairwise_lt_range.imp Nat.le_of_lt
  rw [List.pairwise_map] at hsorted
  unfold Module.genericParamsOf
  dsimp only
  rw [List.mergeSort_of_pairwise (hsorted.imp decide_eq_true)]

end TypeAtlas.Metadata.Module
