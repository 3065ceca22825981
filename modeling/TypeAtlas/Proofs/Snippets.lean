import TypeAtlas.Proofs.LaterAtlases
import TypeAtlas.Proofs.MemberOrder

/-!
Snippets of attributes and members. Main statement: the attributes of a declaration that was loaded
from a module, and those of its members, are the rows of the module that are not left out, in table
order. The snippet of each is the name of its declaration followed by the arguments that could be
read, whether reading went to the end or not.
-/

namespace TypeAtlas

open Metadata Work

namespace Metadata

namespace AttributeRow

/-- Attributes that are not loaded: their constructor belongs to no type, or they are the
compiler's own and the settings say that those are skipped. -/
def LeftOut (row : AttributeRow) (m : Metadata.Module) (settings : Settings) : Prop :=
  attributeType m row.constructor = .ok none ∨
    ∃ type signature name, attributeType m row.constructor = .ok (some (type, signature)) ∧
      settings.skipCompilerAttributes = true ∧ m.typeName type = .ok (some (compilerNamespace, name))

/-- The types of the constructor's parameters and the bytes of the value. -/
def Holds (row : AttributeRow) (m : Metadata.Module) (params : List SigType) (value : Bytes) : Prop :=
  ∃ type signature blob constructor, attributeType m row.constructor = .ok (some (type, signature)) ∧
    m.blobs.get signature = .ok blob ∧ MethodSig.ofBlob blob = .ok constructor ∧
    constructor.params = params ∧ m.blobs.get row.value = .ok value

end AttributeRow

lemma AttributeValue.render_eq_empty_iff (value : AttributeValue) : value.render = "" ↔ value.isEmpty = true := by
  unfold render
  split
  · rename_i hempty
    simp [hempty]
  · rename_i hempty
    refine ⟨fun h => ?_, fun h => absurd h hempty⟩
    have hlength := congrArg String.length h
    simp at hlength

end Metadata

/-- An attribute is what a row of a module tells. A value that cannot be read at all counts as
empty. -/
structure Attribute.Renders (t : Attribute) (m : Metadata.Module) (row : AttributeRow) (a : Atlas) : Prop where
  registered : ∀ id, t.use.target? = some id → id < a.graph.size
  name : t.name = t.use.name a.graph.nameOf
  snippet : ∃ params blob, row.Holds m params blob ∧
    match AttributeValue.ofBlob m params blob with
    | .ok value => t.handle = .synthesized .attributeNode (t.name ++ value.render) ∧
        (t.handle = .synthesized .attributeNode t.name ↔ value.isEmpty = true)
    | .error _ => t.handle = .synthesized .attributeNode t.name

/-- The attributes of something are those of its rows that are not left out, in table order. -/
def Atlas.Lists (a : Atlas) (m : Metadata.Module) (parent : AttributeParent) (attributes : List Attribute) : Prop :=
  ∃ found : List (Option Attribute), attributes = found.filterMap id ∧
    List.Forall₂ (fun row t => match t with
      | some t => ¬row.LeftOut m a.settings ∧ t.Renders m row a
      | none => row.LeftOut m a.settings) (m.attributesOf parent) found

/-- The row of a type's member that its attributes are attached to. -/
def Member.IsAt (m : Metadata.Module) (type : Nat) : Member → AttributeParent → Prop
  | .property p, .property row => row ∈ m.propertiesOf type ∧
      ∃ stored, m.property row = .ok stored ∧ m.strings.get stored.name = .ok p.name
  | .method p, .method row => (∃ rows, m.methodsOf type = .ok rows ∧ row ∈ rows) ∧
      ∃ stored, m.method row = .ok stored ∧ m.strings.get stored.name = .ok p.name
  | _, _ => False

/-- The attributes of a type and of its members are those of a module. -/
structure Shape.Marked (shape : Shape) (m : Metadata.Module) (type : Nat) (a : Atlas) : Prop where
  own : a.Lists m (.type type) shape.attributes
  members : ∀ member ∈ shape.members, ∃ parent, member.IsAt m type parent ∧ a.Lists m parent member.attributes

namespace Attribute.Renders

variable {t : Attribute} {m : Metadata.Module} {row : AttributeRow} {a b : Atlas}

lemma later (h : t.Renders m row a) (hprecedes : a.Precedes b) : t.Renders m row b where
  registered := fun id hid => hprecedes.size_le (h.registered id hid)
  name := h.name.trans (hprecedes.name h.registered).symm
  snippet := h.snippet

end Attribute.Renders

namespace Atlas

variable {m : Metadata.Module} {a b : Atlas}

lemma Lists.later {parent : AttributeParent} {attributes : List Attribute} (h : a.Lists m parent attributes)
    (hprecedes : a.Precedes b) : b.Lists m parent attributes := by
  obtain ⟨found, hfound, hrows⟩ := h
  refine ⟨found, hfound, hrows.imp fun row t ht => ?_⟩
  rw [hprecedes.settings]
  cases t with
  | none => exact ht
  | some t => exact ⟨ht.1, ht.2.later hprecedes⟩

end Atlas

lemma Shape.Marked.later {shape : Shape} {m : Metadata.Module} {type : Nat} {a b : Atlas}
    (h : shape.Marked m type a) (hprecedes : a.Precedes b) : shape.Marked m type b where
  own := h.own.later hprecedes
  members := fun member hmember =>
    let ⟨parent, hat, hlists⟩ := h.members member hmember
    ⟨parent, hat, hlists.later hprecedes⟩

namespace Work

variable {found : Use → Work Unit} {library : Library} {rows : List Nat} {type row : Nat}

lemma exec_bind_check_eq_ok {α β : Type} {r : Except Malformed α} {f : α → Work β} {a b : Atlas} {y : β}
    (h : (check r >>= f).exec a = (.ok y, b)) : ∃ x, r = .ok x ∧ (f x).exec a = (.ok y, b) := by
  cases r with
  | ok x => exact ⟨x, rfl, h⟩
  | error cause => cases (Prod.mk.inj h).1

section Found

variable (hfound : ∀ use, Adds (found use)) (scope : Scope)

include hfound

lemma tokenFinding_leaves (token : Token) :
    Leaves (tokenFinding found library scope token) fun use c => ∀ target ∈ use.targets, target < c.graph.size :=
  (Tracks.leaves fun a => tokenFinding_tracks (placing_steady a) (placing_followed a hfound) trivial scope
    token).imp fun use _ h => h use List.mem_cons_self

lemma signatureFinding_leaves (type : SigType) :
    Leaves (signatureFinding found library scope type) fun use c => ∀ target ∈ use.targets, target < c.graph.size :=
  (Tracks.leaves fun a => signatureFinding_tracks (placing_steady a) (placing_followed a hfound) trivial scope
    type).imp fun use _ h => h use List.mem_cons_self

lemma storedGenerics_leaves (owner : GenericOwner) (names : List String) :
    Leaves (storedGenerics found library scope owner names) fun _ _ => True :=
  (Tracks.leaves fun a => storedGenerics_tracks (placing_steady a) (placing_followed a hfound) trivial scope
    owner names).imp fun _ _ _ => trivial

end Found

lemma isLeftOut_leaves (library : Library) (type : Token) :
    Leaves (isLeftOut library type) fun leftOut c => leftOut = true ↔
      c.settings.skipCompilerAttributes = true ∧
        ∃ name, library.module.typeName type = .ok (some (compilerNamespace, name)) where
  adds := (Tracks.leaves fun a => isLeftOut_tracks (placing_steady a) library type).adds
  told := by
    intro a leftOut b _ hrun c hc
    unfold isLeftOut at hrun
    rw [exec_bind, exec_get] at hrun
    dsimp only at hrun
    split at hrun
    · rename_i hskips
      obtain ⟨name, hname, hrest⟩ := exec_bind_check_eq_ok hrun
      obtain ⟨hresult, rfl⟩ := Prod.mk.inj hrest
      rw [← Except.ok.inj hresult, hc.settings, hskips, hname]
      cases name with
      | none => simp [isCompilerType]
      | some name => simp [isCompilerType, Prod.ext_iff]
    · rename_i hskips
      obtain ⟨hresult, rfl⟩ := Prod.mk.inj hrun
      rw [← Except.ok.inj hresult, hc.settings]
      simp [hskips]

section

variable (hfound : ∀ use, Adds (found use)) (scope : Scope)

include hfound scope

lemma readAttribute_leaves (row : AttributeRow) {type : Token} {signature : Nat}
    (htype : attributeType library.module row.constructor = .ok (some (type, signature))) :
    Leaves (readAttribute found library scope type signature row.value) fun t c =>
      t.Renders library.module row c where
  adds := (Tracks.leaves fun a => readAttribute_tracks (placing_steady a) (placing_followed a hfound)
    trivial scope type signature row.value).adds
  told := by
    intro a t b ha hrun c hc
    obtain ⟨use, placed, huse, hrest⟩ := exec_bind_eq_ok hrun
    obtain ⟨blob, hblob, hrest⟩ := exec_bind_check_eq_ok hrest
    obtain ⟨constructor, hconstructor, hrest⟩ := exec_bind_check_eq_ok hrest
    obtain ⟨value, hvalue, hrest⟩ := exec_bind_check_eq_ok hrest
    obtain ⟨hresult, rfl⟩ := Prod.mk.inj hrest
    cases hresult
    have hplaced : ∀ id, use.target? = some id → id < placed.graph.size := by
      intro id hid
      exact (tokenFinding_leaves hfound scope type).told a use placed ha huse placed (.refl _) id
        (Use.mem_targets.mpr (.inl hid))
    refine ⟨fun id hid => hc.size_le (hplaced id hid), (hc.name hplaced).symm, constructor.params, value,
      ⟨type, signature, blob, constructor, htype, hblob, hconstructor, rfl, hvalue⟩, ?_⟩
    unfold attributeValue
    cases AttributeValue.ofBlob library.module constructor.params value with
    | error cause => simp [AttributeValue.render, AttributeValue.isEmpty]
    | ok arguments => simp [AttributeValue.render_eq_empty_iff]

lemma storedAttribute_leaves (row : AttributeRow) :
    Leaves (storedAttribute found library scope row) fun t c => match t with
      | some t => ¬row.LeftOut library.module c.settings ∧ t.Renders library.module row c
      | none => row.LeftOut library.module c.settings := by
  refine Leaves.bindCheck fun type htype => ?_
  cases type with
  | none => exact Leaves.pure fun c => .inl htype
  | some type =>
    refine Leaves.bind (isLeftOut_leaves library type.1) fun leftOut => ?_
    split
    · rename_i hleft
      refine Leaves.pure fun c hout => .inr ?_
      obtain ⟨hskips, name, hname⟩ := hout.mp hleft
      exact ⟨type.1, type.2, name, htype, hskips, hname⟩
    · rename_i hleft
      refine (readAttribute_leaves hfound scope row htype).bind fun t => Leaves.pure fun c hrenders hout => ?_
      refine ⟨?_, hrenders⟩
      rintro (hnone | ⟨other, signature, name, hother, hskips, hname⟩)
      · cases htype.symm.trans hnone
      · cases htype.symm.trans hother
        exact hleft (hout.mpr ⟨hskips, name, hname⟩)

lemma storedAttributes_leaves (parent : AttributeParent) :
    Leaves (storedAttributes found library scope parent) fun attributes c =>
      c.Lists library.module parent attributes := by
  refine (Leaves.mapM fun row _ => storedAttribute_leaves hfound scope row).bind fun rows => ?_
  exact Leaves.pure fun c hrows => ⟨rows, rfl, hrows⟩

lemma storedProperty_leaves (accessed : Accessed)
    (hproperty : accessed.property ∈ library.module.propertiesOf type) :
    Leaves (storedProperty found library scope accessed) fun p c =>
      (Member.property p).IsAt library.module type (.property accessed.property) ∧
        c.Lists library.module (.property accessed.property) p.attributes := by
  refine Leaves.bindCheck fun row hrow => Leaves.bindCheck fun name hname => ?_
  refine Leaves.bindCheck fun blob _ => Leaves.bindCheck fun signature _ => ?_
  refine (signatureFinding_leaves hfound scope signature.type).bind fun type => ?_
  refine (storedAttributes_leaves hfound scope _).bind fun attributes => ?_
  refine graph_leaves.bind fun g => Leaves.pure fun c _ hattributes _ => ?_
  exact ⟨⟨hproperty, row, hrow, hname⟩, hattributes⟩

lemma storedMethod_leaves
    (hrows : library.module.methodsOf type = .ok rows) (hrow : row ∈ rows) :
    Leaves (storedMethod found library scope row) fun p c =>
      (Member.method p).IsAt library.module type (.method row) ∧
        c.Lists library.module (.method row) p.attributes := by
  refine Leaves.bindCheck fun method hmethod => Leaves.bindCheck fun name hname => ?_
  refine Leaves.bindCheck fun blob _ => Leaves.bindCheck fun signature _ => ?_
  refine Leaves.bindCheck fun genericNames _ => ?_
  refine (signatureFinding_leaves hfound _ signature.ret).bind fun returns => ?_
  refine Leaves.bindCheck fun names _ => ?_
  refine (Leaves.mapM fun param _ => signatureFinding_leaves hfound _ param).bind fun types => ?_
  refine (storedGenerics_leaves hfound _ _ _).bind fun generics => ?_
  refine (storedAttributes_leaves hfound _ _).bind fun attributes => ?_
  refine graph_leaves.bind fun g => Leaves.pure fun c _ hattributes _ _ _ => ?_
  exact ⟨⟨⟨rows, hrows, hrow⟩, method, hmethod, hname⟩, hattributes⟩

end

lemma mem_propertiesOf_of_lookup {m : Metadata.Module} {accessed : Accessed}
    (h : (accessedBy m type).reverse.lookup row = some accessed) : accessed.property ∈ m.propertiesOf type := by
  obtain ⟨before, after, hentries, -⟩ := List.lookup_eq_some_iff.mp h
  have hmem : (row, accessed) ∈ accessedBy m type := by
    rw [← List.mem_reverse, hentries]
    exact List.mem_append_right _ List.mem_cons_self
  obtain ⟨property, hproperty, hentry⟩ := List.mem_filterMap.mp hmem
  obtain ⟨_, -, heq⟩ := Option.map_eq_some_iff.mp hentry
  obtain ⟨-, rfl⟩ := Prod.mk.inj heq
  exact hproperty

lemma storedMember_leaves (hfound : ∀ use, Adds (found use)) (scope : Scope)
    (hrows : library.module.methodsOf type = .ok rows) (hrow : row ∈ rows) :
    Leaves (storedMember found library scope (accessedBy library.module type).reverse row) fun found c =>
      ∀ member ∈ found, ∃ parent, member.IsAt library.module type parent ∧
        c.Lists library.module parent member.attributes := by
  unfold storedMember
  split
  · rename_i accessed hlookup
    refine (storedProperty_leaves hfound scope accessed (mem_propertiesOf_of_lookup hlookup)).bind fun p =>
      Leaves.pure fun c hp member hmember => ?_
    cases hmember
    exact ⟨_, hp⟩
  · refine Leaves.bindCheck fun method _ => Leaves.bindCheck fun name _ => ?_
    split
    · exact Leaves.pure fun c member hmember => nomatch hmember
    · refine (storedMethod_leaves hfound scope hrows hrow).bind fun p =>
        Leaves.pure fun c hp member hmember => ?_
      cases hmember
      exact ⟨_, hp⟩

lemma storedShape_leaves (hfound : ∀ use, Adds (found use)) (scope : Scope) (kind : Kind) (type : Nat) :
    Leaves (storedShape found library scope kind type) fun shape c =>
      shape.Marked library.module type c := by
  unfold storedShape
  split
  · refine (storedAttributes_leaves hfound scope _).bind fun attributes => Leaves.pure fun c hattributes => ?_
    exact ⟨hattributes, List.forall_mem_nil _⟩
  · refine Leaves.bindCheck fun names _ => ?_
    refine (storedGenerics_leaves hfound _ _ _).bind fun generics => ?_
    refine Leaves.bindCheck fun tokens _ => ?_
    refine (Leaves.mapM fun token _ => tokenFinding_leaves hfound _ token).bind fun bases => ?_
    refine Leaves.bindCheck fun rows hrows => ?_
    refine (Leaves.mapM_mem fun row hrow => storedMember_leaves hfound _ hrows hrow).bind fun members => ?_
    refine (storedAttributes_leaves hfound _ _).bind fun attributes => ?_
    refine Leaves.pure fun c hattributes hmembers _ _ => ?_
    exact ⟨hattributes, List.forall_mem_filterMap.mpr hmembers⟩

end Work

/-- What is told of the snippets of a declaration that comes from a module. -/
def Declaration.Marked (d : Declaration) (shape : Shape) (a : Atlas) : Prop :=
  ∀ m row, d.provenance = .module m row → shape.Marked m row a

lemma Declaration.durable_marked : Shape.Durable Declaration.Marked where
  header := by
    intro d e shape a hheader h m row hrow
    rw [hheader] at hrow
    exact h m row hrow
  later := fun hprecedes h m row hrow => (h m row hrow).later hprecedes

lemma Work.shapeOf_leaves_marked {found : Use → Work Unit} (hfound : ∀ use, Adds (found use)) (d : Declaration) :
    Leaves (shapeOf found d) d.Marked := by
  unfold shapeOf
  split
  · rename_i hsource
    refine (Tracks.leaves fun a => sourceShape_tracks (placing_steady a) (placing_followed a hfound) d).imp ?_
    intro shape c _ m row hrow
    cases hsource.symm.trans hrow
  · rename_i m row hmodule
    refine (storedShape_leaves hfound _ _ row).imp fun shape c h other row' hrow => ?_
    obtain ⟨rfl, rfl⟩ := Provenance.module.inj (hmodule.symm.trans hrow)
    exact h

lemma Atlas.marked_afterAll (settings : Settings) (calls : List Call) :
    (({ settings } : Atlas).afterAll calls).Shows Declaration.Marked [] :=
  Atlas.shows_afterAll Declaration.durable_marked (fun _ => Work.shapeOf_leaves_marked) settings calls

/-- Whatever was asked of an atlas, the attributes of a declaration that was loaded from a module
and those of its members are the rows of the module that are not left out. Each has for its
snippet the name of its declaration with all arguments behind it that could be read. -/
theorem Atlas.loaded_attributes_render (settings : Settings) (calls : List Call) (id : DeclId)
    (d : Declaration) (m : Metadata.Module) (row : Nat)
    (hd : (({ settings } : Atlas).afterAll calls).graph.get? id = some d) (hloaded : d.loaded = true)
    (hfrom : d.provenance = .module m row) :
    d.shape.Marked m row (({ settings } : Atlas).afterAll calls) :=
  Atlas.marked_afterAll settings calls id d hd hloaded List.not_mem_nil m row hfrom

/-- Calls for a type and a method with an attribute, of which the second argument is of a type
that is not read. -/
def tagCalls : List BuildCall :=
  [.defineType 0 "Marks" "Color" none, .defineType 0 "Marks" "TagAttribute" none,
    .addConstructor [.builtin .int, .valueType (.definition 1)] ["size", "color"],
    .defineType 0 "Marks" "Item" none, .addMethod 0 "Ring" (Builder.instanceSig (.builtin .void) []) [],
    .addAttribute (.type 3) (.method 1) ⟨[.int32 42, .int32 1], [], true⟩,
    .addAttribute (.method 2) (.method 1) ⟨[.int32 7, .int32 0], [], true⟩]

def tagModule : Metadata.Module := ((Builder.ofAssembly "Marks").afterAll tagCalls).module

/-- The tagged type and its method. -/
theorem Atlas.loaded_attributes_render_tags :
    let a := ({ settings := {} } : Atlas).afterAll [.importLibrary ⟨tagModule, "marks.dll"⟩, .load 2]
    ∃ d, a.graph.get? 2 = some d ∧ d.loaded = true ∧ d.provenance = .module tagModule 3 ∧
      d.shape.Marked tagModule 3 a := by
  intro a
  have himport : ((Call.importLibrary ⟨tagModule, "marks.dll"⟩).work.exec { settings := {} }).1.isOk = true := by
    decide +kernel
  have hmarks : (a.graph.get? 2).map (·.loaded) = some true := by decide +kernel
  obtain ⟨d, hd, hloaded⟩ := Option.map_eq_some_iff.mp hmarks
  have hfrom : d.provenance = .module tagModule 3 := provenance_of_import himport (by decide +kernel) hd
  exact ⟨d, hd, hloaded, hfrom, Atlas.loaded_attributes_render {} _ 2 d tagModule 3 hd hloaded hfrom⟩

/-- The attributes of the tagged type and its method are shown with one argument, although the
values have two and reading them stops at the second. -/
theorem Atlas.partly_read_values_shown :
    let a := ({ settings := {} } : Atlas).afterAll [.importLibrary ⟨tagModule, "marks.dll"⟩, .load 2]
    let read (row : AttributeRow) := (tagModule.blobs.get row.value).toOption.bind fun blob =>
      (AttributeValue.ofBlob tagModule [.builtin .int, .valueType (.definition 1)] blob).toOption
    (a.graph.get? 2).map (fun d => (d.shape.attributes ++ d.shape.members.flatMap (·.attributes)).map (·.handle.text)) =
        some ["TagAttribute(42)", "TagAttribute(7)"] ∧
      (tagModule.attributesOf (.type 3) ++ tagModule.attributesOf (.method 2)).map read =
        [some ⟨[.int32 42], [], false⟩, some ⟨[.int32 7], [], false⟩] := by
  decide +kernel

end TypeAtlas
