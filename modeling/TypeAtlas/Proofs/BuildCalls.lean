import TypeAtlas.Proofs.Building

/-!
The calls that build a module. Each of them stores texts and blobs and changes few tables, so what
is true of each change is true of every call that makes such changes only (`Builder.Judges`).
-/

namespace TypeAtlas.Metadata

/-- A call that works on a module under construction. -/
inductive BuildCall where
  | assemblyReference (name : String)
  | typeReference (scope : RefScope) (ns name : String)
  | externalType (assembly ns name : String)
  | typeSpecification (sig : SigType)
  | defineType (flags : Nat) (ns name : String) (base : Option Token)
  | setBase (type : Nat) (base : Token)
  | addInterface (type : Nat) (interface : Token)
  | addGenericParam (owner : GenericOwner) (name : String)
  | addConstraint (param : Nat) (constraint : Token)
  | addMethod (flags : Nat) (name : String) (sig : MethodSig) (names : List String)
  | addConstructor (params : List SigType) (names : List String)
  | addProperty (name : String) (type : SigType) (getter setter : Bool)
  | memberReference (parent : Token) (name : String) (sig : MethodSig)
  | addAttribute (parent : AttributeParent) (constructor : AttributeConstructor)
      (value : AttributeValue)
  | openType

/-- What a call that succeeds answers. -/
inductive Reply where
  | done
  | row (row : Nat)
  | token (token : Token)
  | opened (type : Option Nat)
deriving DecidableEq

def BuildCall.step : BuildCall → Build Reply
  | assemblyReference name => Reply.row <$> Builder.assemblyReference name
  | typeReference scope ns name => Reply.token <$> Builder.typeReference scope ns name
  | externalType assembly ns name => Reply.token <$> Builder.externalType assembly ns name
  | typeSpecification sig => Reply.token <$> Builder.typeSpecification sig
  | defineType flags ns name base => Reply.row <$> Builder.defineType flags ns name base
  | setBase type base => (fun _ => .done) <$> Builder.setBase type base
  | addInterface type interface => (fun _ => .done) <$> Builder.addInterface type interface
  | addGenericParam owner name => Reply.row <$> Builder.addGenericParam owner name
  | addConstraint param constraint => (fun _ => .done) <$> Builder.addConstraint param constraint
  | addMethod flags name sig names => Reply.row <$> Builder.addMethod flags name sig names
  | addConstructor params names => Reply.row <$> Builder.addConstructor params names
  | addProperty name type getter setter => Reply.row <$> Builder.addProperty name type getter setter
  | memberReference parent name sig => Reply.row <$> Builder.memberReference parent name sig
  | addAttribute parent constructor value =>
    (fun _ => .done) <$> Builder.addAttribute parent constructor value
  | openType => do return .opened (← get).openType

namespace Builder

/-- What a call answers. -/
def reply (b : Builder) (call : BuildCall) : Except Malformed Reply := (run call.step b).1

/-- The builder after a call, whether it succeeds or fails. -/
def after (b : Builder) (call : BuildCall) : Builder := (run call.step b).2

def afterAll (b : Builder) (calls : List BuildCall) : Builder := calls.foldl after b

variable {α β : Type} {b b' : Builder}

/-! What holds of each change of a table holds of the calls that make such changes. -/

/-- What a step changes besides the heaps. -/
inductive Part where
  | assemblyRefs | typeRefs | references | typeSpecs | typeDefs | openType | bases | interfaces
  | genericParams | constraints | methods | params | propertyMaps | properties | accessors
  | memberRefs | attributes
deriving DecidableEq

inductive Part.Edits : Part → (Builder → Builder) → Prop
  | assemblyRef (row : AssemblyRefRow) :
    Edits assemblyRefs fun b => { b with module.assemblyRefs := b.module.assemblyRefs.push row }
  | typeRef (row : TypeRefRow) :
    Edits typeRefs fun b => { b with module.typeRefs := b.module.typeRefs.push row }
  | reference (entry : (RefScope × String × String) × Nat) :
    Edits references fun b => { b with references := entry :: b.references }
  | typeSpec (row : TypeSpecRow) :
    Edits typeSpecs fun b => { b with module.typeSpecs := b.module.typeSpecs.push row }
  | typeDef (flags name ns : Nat) (base : Option Token) :
    Edits typeDefs fun b => { b with
      module.typeDefs := b.module.typeDefs.push ⟨flags, name, ns, base, b.module.methods.size + 1⟩ }
  | openType (type : Nat) : Edits openType fun b => { b with openType := some type }
  | base (type : Nat) (base : Token) : Edits bases (withBase · type base)
  | interface (row : InterfaceRow) :
    Edits interfaces fun b => { b with module.interfaces := b.module.interfaces.push row }
  | genericParam (row : GenericParamRow) :
    Edits genericParams fun b => { b with module.genericParams := b.module.genericParams.push row }
  | constraint (row : ConstraintRow) :
    Edits constraints fun b => { b with module.constraints := b.module.constraints.push row }
  | method (flags name signature : Nat) :
    Edits methods fun b => { b with
      module.methods := b.module.methods.push ⟨flags, name, signature, b.module.params.size + 1⟩ }
  | param (row : ParamRow) : Edits params fun b => { b with module.params := b.module.params.push row }
  | list (type : Nat) : Edits propertyMaps fun b => (run (openProperties type) b).2
  | property (row : PropertyRow) :
    Edits properties fun b => { b with module.properties := b.module.properties.push row }
  | accessor (row : AccessorRow) :
    Edits accessors fun b => { b with module.accessors := b.module.accessors.push row }
  | memberRef (row : MemberRefRow) :
    Edits memberRefs fun b => { b with module.memberRefs := b.module.memberRefs.push row }
  | attribute (row : AttributeRow) :
    Edits attributes fun b => { b with module.attributes := b.module.attributes.push row }

end Builder

def BuildCall.parts : BuildCall → List Builder.Part
  | assemblyReference _ => [.assemblyRefs]
  | typeReference .. => [.typeRefs, .references]
  | externalType .. => [.assemblyRefs, .typeRefs, .references]
  | typeSpecification _ => [.typeSpecs]
  | defineType .. => [.typeDefs, .openType]
  | setBase .. => [.bases]
  | addInterface .. => [.interfaces]
  | addGenericParam .. => [.genericParams]
  | addConstraint .. => [.constraints]
  | addMethod .. | addConstructor .. => [.methods, .params]
  | addProperty .. => [.methods, .params, .propertyMaps, .properties, .accessors]
  | memberReference .. => [.memberRefs]
  | addAttribute .. => [.attributes]
  | openType => []

namespace Builder

/-- A judgement on steps that holds of changes of these parts and of the heaps, and passes on to
steps in a row. A step that reads the builder may not look at the lists of properties. -/
structure Judges (J : (α : Type) → Build α → Prop) (parts : List Part) : Prop where
  ofExcept : ∀ {α : Type} (result : Except Malformed α), J α (MonadExcept.ofExcept result)
  bind : ∀ {α β : Type} {step : Build α} {f : α → Build β}, J α step → (∀ x, J β (f x)) → J β (step >>= f)
  read : ∀ {α : Type} {f : Builder → Build α}, (∀ b maps, f (b.withMaps maps) = f b) → (∀ b, J α (f b)) →
    J α (get >>= f)
  intern : ∀ text, J Nat (intern text)
  pushBlob : ∀ blob, J Nat (pushBlob blob)
  edit : ∀ {part f}, part ∈ parts → part.Edits f → J Unit (modify f)

namespace Judges

section

variable {J : (α : Type) → Build α → Prop} {parts : List Part} (h : Judges J parts)

include h

lemma pure {α : Type} (x : α) : J α (pure x) := h.ofExcept (.ok x)

lemma throw {α : Type} (cause : Malformed) : J α (throw cause) := h.ofExcept (.error cause)

lemma map {α β : Type} {step : Build α} (f : α → β) (hstep : J α step) : J β (f <$> step) := by
  rw [map_eq_pure_bind]
  exact h.bind hstep fun x => h.pure (f x)

lemma requireType : J Nat requireType := by
  refine h.read (fun _ _ => rfl) fun b => ?_
  split
  · exact h.pure _
  · exact h.throw _

lemma assemblyReference (hparts : .assemblyRefs ∈ parts) (name : String) :
    J Nat (assemblyReference name) := by
  refine h.bind (h.intern name) fun offset => h.read (fun _ _ => rfl) fun b => ?_
  split
  · exact h.pure _
  · exact h.bind (h.edit hparts (.assemblyRef _)) fun _ => h.pure _

lemma typeReference (hparts : [.typeRefs, .references] ⊆ parts) (scope : RefScope) (ns name : String) :
    J Token (typeReference scope ns name) := by
  have hrow := hparts List.mem_cons_self
  have hentry := hparts (List.mem_cons_of_mem _ List.mem_cons_self)
  refine h.read (fun _ _ => rfl) fun b => ?_
  split
  · exact h.pure _
  · refine h.bind (h.intern name) fun _ => h.bind (h.intern ns) fun _ => ?_
    refine h.bind (h.edit hrow (.typeRef _)) fun _ => h.read (fun _ _ => rfl) fun c => ?_
    exact h.bind (h.edit hentry (.reference _)) fun _ => h.pure _

lemma addParams (hparts : .params ∈ parts) (sequence : Nat) (names : List String) :
    J Unit (addParams sequence names) := by
  induction names generalizing sequence with
  | nil => exact h.pure ()
  | cons name names ih =>
    exact h.bind (h.intern name) fun _ => h.bind (h.edit hparts (.param _)) fun _ => ih _

lemma addMethod (hparts : [.methods, .params] ⊆ parts) (flags : Nat) (name : String) (sig : MethodSig)
    (names : List String) : J Nat (addMethod flags name sig names) := by
  have hparams := hparts (List.mem_cons_of_mem _ List.mem_cons_self)
  refine h.bind h.requireType fun _ => h.bind (h.ofExcept _) fun blob => h.bind (h.intern name) fun _ => ?_
  refine h.bind (h.pushBlob blob) fun _ => h.bind (h.edit (hparts List.mem_cons_self) (.method ..)) fun _ => ?_
  exact h.bind (h.addParams hparams 1 names) fun _ => h.read (fun _ _ => rfl) fun _ => h.pure _

lemma addAccessor (hparts : [.methods, .params, .accessors] ⊆ parts) (isThere reads : Bool)
    (name : String) (sig : MethodSig) (names : List String) (property : Nat) :
    J Unit (addAccessor isThere reads name sig names property) := by
  cases isThere with
  | false => exact h.pure ()
  | true =>
    have hmethod : [Part.methods, .params] ⊆ parts := fun part hpart => hparts (by grind)
    exact h.bind (h.addMethod hmethod ..) fun _ => h.edit (hparts (by simp)) (.accessor _)

lemma addProperty (hparts : [.methods, .params, .propertyMaps, .properties, .accessors] ⊆ parts)
    (name : String) (type : SigType) (getter setter : Bool) :
    J Nat (addProperty name type getter setter) := by
  have haccessor : [Part.methods, .params, .accessors] ⊆ parts := fun part hpart => hparts (by grind)
  refine h.bind h.requireType fun owner => h.bind (h.edit (hparts (by simp)) (.list owner)) fun _ => ?_
  refine h.bind (h.ofExcept _) fun blob => h.bind (h.intern name) fun _ => h.bind (h.pushBlob blob) fun _ => ?_
  refine h.bind (h.edit (hparts (by simp)) (.property _)) fun _ => h.read (fun _ _ => rfl) fun _ => ?_
  refine h.bind (h.addAccessor haccessor ..) fun _ => ?_
  exact h.bind (h.addAccessor haccessor ..) fun _ => h.pure _

/-- The judgement holds of a call that changes these parts only. -/
lemma step {call : BuildCall} (hparts : call.parts ⊆ parts) : J Reply call.step := by
  cases call with
  | assemblyReference name => exact h.map _ (h.assemblyReference (hparts (by simp [BuildCall.parts])) name)
  | typeReference scope ns name => exact h.map _ (h.typeReference hparts scope ns name)
  | externalType assembly ns name =>
    have htype := List.subset_of_cons_subset hparts
    refine h.map _ (h.bind (h.assemblyReference (hparts List.mem_cons_self) assembly) fun row => ?_)
    exact h.typeReference htype (.assembly row) ns name
  | typeSpecification sig =>
    refine h.map _ (h.bind (h.ofExcept _) fun blob => h.bind (h.pushBlob blob) fun _ => ?_)
    refine h.bind (h.edit (hparts List.mem_cons_self) (.typeSpec _)) fun _ => ?_
    exact h.read (fun _ _ => rfl) fun _ => h.pure _
  | defineType flags ns name base =>
    have hopen := hparts (List.mem_cons_of_mem _ List.mem_cons_self)
    refine h.map _ (h.bind (h.intern name) fun _ => h.bind (h.intern ns) fun _ => ?_)
    refine h.bind (h.edit (hparts List.mem_cons_self) (.typeDef ..)) fun _ => h.read (fun _ _ => rfl) fun _ => ?_
    exact h.bind (h.edit hopen (.openType _)) fun _ => h.pure _
  | setBase type base =>
    refine h.map _ (h.read (fun _ _ => rfl) fun b => ?_)
    split
    · exact h.throw _
    · exact h.edit (hparts List.mem_cons_self) (.base type base)
  | addInterface type interface => exact h.map _ (h.edit (hparts List.mem_cons_self) (.interface _))
  | addGenericParam owner name =>
    refine h.map _ (h.read (fun _ _ => rfl) fun b => h.bind (h.intern name) fun _ => ?_)
    refine h.bind (h.edit (hparts List.mem_cons_self) (.genericParam _)) fun _ => ?_
    exact h.read (fun _ _ => rfl) fun _ => h.pure _
  | addConstraint param constraint => exact h.map _ (h.edit (hparts List.mem_cons_self) (.constraint _))
  | addMethod flags name sig names => exact h.map _ (h.addMethod hparts ..)
  | addConstructor params names => exact h.map _ (h.addMethod hparts ..)
  | addProperty name type getter setter => exact h.map _ (h.addProperty hparts ..)
  | memberReference parent name sig =>
    refine h.map _ (h.bind (h.ofExcept _) fun blob => h.bind (h.intern name) fun _ => ?_)
    refine h.bind (h.pushBlob blob) fun _ => h.bind (h.edit (hparts List.mem_cons_self) (.memberRef _)) fun _ => ?_
    exact h.read (fun _ _ => rfl) fun _ => h.pure _
  | addAttribute parent constructor value =>
    refine h.map _ (h.bind (h.ofExcept _) fun blob => h.bind (h.pushBlob blob) fun _ => ?_)
    exact h.edit (hparts List.mem_cons_self) (.attribute _)
  | openType => exact h.read (fun _ _ => rfl) fun b => h.pure (Reply.opened b.openType)

end

/-- Relations that hold along each change hold along steps, whether they succeed or fail. -/
lemma ofRelation {R : Builder → Builder → Prop} {parts : List Part} (hrefl : ∀ b, R b b)
    (htrans : ∀ {b b' b''}, R b b' → R b' b'' → R b b'') (hintern : ∀ b text, R b (b.interned text))
    (hblobs : ∀ (b : Builder) {blob offset blobs}, b.module.blobs.push blob = .ok (offset, blobs) →
      R b (b.withBlobs blobs))
    (hedit : ∀ {part f}, part ∈ parts → part.Edits f → ∀ b, R b (f b)) :
    Judges (fun _ step => ∀ b, R b (run step b).2) parts where
  ofExcept result b := by
    rw [run_ofExcept]
    exact hrefl b
  bind := by
    intro α β step f hstep hf b
    have hfirst := hstep b
    rw [run_bind]
    cases hrun : run step b with
    | mk result c =>
      rw [hrun] at hfirst
      cases result with
      | ok x => exact htrans hfirst (hf x c)
      | error cause => exact hfirst
  read _ hf b := hf b b
  intern text b := hintern b text
  pushBlob blob b := by
    rw [run_pushBlob]
    cases hpush : b.module.blobs.push blob with
    | error cause => exact hrefl b
    | ok pushed => exact hblobs b hpush
  edit := hedit

end Judges

end Builder

end TypeAtlas.Metadata
