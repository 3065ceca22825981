import TypeAtlas.Proofs.Ownership

/-!
Calls that are refused. A call that finds no open type, no row to change or no encoding leaves at
most an empty list of properties behind, which no later call and no question can tell from none.
Main statement: without the refused calls, all other calls answer as they did and the module
answers every question as it did.
-/

namespace TypeAtlas.Metadata

/-- What a call encodes before it adds a row. -/
def BuildCall.encoding : BuildCall → Except Malformed Bytes
  | typeSpecification sig => sig.write
  | addMethod _ _ sig _ => sig.write
  | addConstructor params _ => (Builder.instanceSig (.builtin .void) params).write
  | addProperty _ type _ _ => PropertySig.write ⟨true, type, []⟩
  | memberReference _ _ sig => sig.write
  | addAttribute _ _ value => value.write
  | _ => .ok []

/-- Whether a failure is for want of an open type, of a row or of an encoding. -/
def isRefusal (encoding : Except Malformed Bytes) : Malformed → Bool
  | .noOpenType | .absentBase _ => true
  | cause => encoding = .error cause

lemma isRefusal_encoding (cause : Malformed) : isRefusal (.error cause) cause = true := by
  unfold isRefusal
  split <;> simp

lemma isRefusal_tooLarge (blob : Bytes) (size : Nat) : isRefusal (.ok blob) (.tooLarge size) = false := by
  simp [isRefusal]

/-- A call with its answer. -/
structure Exchange where
  call : BuildCall
  reply : Except Malformed Reply

def Exchange.isRefused (made : Exchange) : Bool :=
  match made.reply with
  | .ok _ => false
  | .error cause => isRefusal made.call.encoding cause

/-- A question to a finished module, by what is answered. -/
inductive Question : Type → Type where
  | assembly : Question String
  | string (offset : Nat) : Question (Except Malformed String)
  | blob (offset : Nat) : Question (Except Malformed Bytes)
  | typeDefRows : Question (List Nat)
  | typeDef (row : Nat) : Question (Except Malformed TypeDefRow)
  | typeRef (row : Nat) : Question (Except Malformed TypeRefRow)
  | typeSpec (row : Nat) : Question (Except Malformed TypeSpecRow)
  | assemblyRef (row : Nat) : Question (Except Malformed AssemblyRefRow)
  | method (row : Nat) : Question (Except Malformed MethodRow)
  | param (row : Nat) : Question (Except Malformed ParamRow)
  | memberRef (row : Nat) : Question (Except Malformed MemberRefRow)
  | property (row : Nat) : Question (Except Malformed PropertyRow)
  | genericParam (row : Nat) : Question (Except Malformed GenericParamRow)
  | methodsOf (type : Nat) : Question (Except Malformed (List Nat))
  | paramsOf (method : Nat) : Question (Except Malformed (List Nat))
  | propertiesOf (type : Nat) : Question (List Nat)
  | genericParamsOf (owner : GenericOwner) : Question (List Nat)
  | constraintsOf (param : Nat) : Question (List Token)
  | interfacesOf (type : Nat) : Question (List Token)
  | attributesOf (parent : AttributeParent) : Question (List AttributeRow)
  | accessorsOf (property : Nat) : Question (Option Nat × Option Nat)
  | declaringTypeOf (method : Nat) : Question (Option Nat)
  | typeDefName (type : Nat) : Question (Except Malformed (String × String))
  | findTypeDef (ns name : String) : Question (Option Nat)
  | typeName (token : Token) : Question (Except Malformed (Option (String × String)))
  | referenceAssembly (row : Nat) : Question (Except Fault String)
  | summary : Question String

namespace Module

def answer (m : Module) : {α : Type} → Question α → α
  | _, .assembly => m.assembly
  | _, .string offset => m.strings.get offset
  | _, .blob offset => m.blobs.get offset
  | _, .typeDefRows => m.typeDefRows
  | _, .typeDef row => m.typeDef row
  | _, .typeRef row => m.typeRef row
  | _, .typeSpec row => m.typeSpec row
  | _, .assemblyRef row => m.assemblyRef row
  | _, .method row => m.method row
  | _, .param row => m.param row
  | _, .memberRef row => m.memberRef row
  | _, .property row => m.property row
  | _, .genericParam row => m.genericParam row
  | _, .methodsOf type => m.methodsOf type
  | _, .paramsOf method => m.paramsOf method
  | _, .propertiesOf type => m.propertiesOf type
  | _, .genericParamsOf owner => m.genericParamsOf owner
  | _, .constraintsOf param => m.constraintsOf param
  | _, .interfacesOf type => m.interfacesOf type
  | _, .attributesOf parent => m.attributesOf parent
  | _, .accessorsOf property => m.accessorsOf property
  | _, .declaringTypeOf method => m.declaringTypeOf method
  | _, .typeDefName type => m.typeDefName type
  | _, .findTypeDef ns name => m.findTypeDef ns name
  | _, .typeName token => m.typeName token
  | _, .referenceAssembly row => m.referenceAssembly row
  | _, .summary => m.summary

section

variable (m : Module) (maps : Array PropertyMapRow)

include m maps

lemma typeRef_withMaps (row : Nat) :
    typeRef { m with propertyMaps := maps } row = m.typeRef row := rfl

lemma scopeAssembly_withMaps (fuel : Nat) (scope : RefScope) :
    scopeAssembly { m with propertyMaps := maps } fuel scope = m.scopeAssembly fuel scope := by
  induction fuel generalizing scope with
  | zero =>
    cases scope with
    | ownModule => rfl
    | assembly row => rfl
    | outer row => rw [scopeAssembly, scopeAssembly, typeRef_withMaps]
  | succ fuel ih =>
    cases scope with
    | ownModule => rfl
    | assembly row => rfl
    | outer row =>
      rw [scopeAssembly, scopeAssembly, typeRef_withMaps]
      cases m.typeRef row with
      | error cause => rfl
      | ok found => exact ih found.scope

lemma referenceAssembly_withMaps (row : Nat) :
    referenceAssembly { m with propertyMaps := maps } row = m.referenceAssembly row := by
  rw [referenceAssembly, referenceAssembly, typeRef_withMaps]
  cases m.typeRef row with
  | error cause => rfl
  | ok found => exact m.scopeAssembly_withMaps maps m.typeRefs.size found.scope

/-- Lists of properties show in the properties of types only. -/
lemma answer_withMaps
    (h : ∀ type, propertiesOf { m with propertyMaps := maps } type = m.propertiesOf type) {α : Type}
    (question : Question α) : answer { m with propertyMaps := maps } question = m.answer question := by
  cases question with
  | propertiesOf type => exact h type
  | referenceAssembly row => exact m.referenceAssembly_withMaps maps row
  | _ => rfl

end

end Module

namespace Builder

variable {α β : Type} {b b' b'' : Builder} {call : BuildCall} {cause : Malformed} {step : Build α}
  {sig : MethodSig} {type : SigType}

/-- The calls with their answers, one after another. -/
def transcript (b : Builder) : List BuildCall → List Exchange
  | [] => []
  | call :: calls => ⟨call, b.reply call⟩ :: (b.after call).transcript calls

/-- Builders that differ at most in their lists of properties. -/
def Alike (b b' : Builder) : Prop := ∃ maps, b' = b.withMaps maps

lemma Alike.refl (b : Builder) : Alike b b := ⟨b.module.propertyMaps, rfl⟩

lemma Alike.symm (h : Alike b b') : Alike b' b := by
  obtain ⟨maps, rfl⟩ := h
  exact ⟨b.module.propertyMaps, rfl⟩

lemma Alike.trans (h : Alike b b') (h' : Alike b' b'') : Alike b b'' := by
  obtain ⟨maps, rfl⟩ := h
  obtain ⟨maps', rfl⟩ := h'
  exact ⟨maps', rfl⟩

section Blind

/-- A step that does not look at the lists of properties. -/
def Blind (step : Build α) : Prop :=
  ∀ b b', Alike b b' → (run step b').1 = (run step b).1 ∧ Alike (run step b).2 (run step b').2

lemma Blind.ofExcept (result : Except Malformed α) : Blind (MonadExcept.ofExcept result) := by
  intro b b' h
  rw [run_ofExcept, run_ofExcept]
  exact ⟨rfl, h⟩

lemma Blind.modify {f : Builder → Builder}
    (hf : ∀ (b : Builder) maps, f (b.withMaps maps) = (f b).withMaps maps) :
    Blind (modify f : Build Unit) := by
  rintro b b' ⟨maps, rfl⟩
  exact ⟨rfl, maps, hf b maps⟩

lemma Blind.bind {f : α → Build β} (hstep : Blind step) (hf : ∀ x, Blind (f x)) : Blind (step >>= f) := by
  intro b b' h
  obtain ⟨hreply, halike⟩ := hstep b b' h
  rw [run_bind, run_bind]
  cases hrun : run step b with
  | mk result c =>
    cases hrun' : run step b' with
    | mk result' c' =>
      rw [hrun, hrun'] at hreply halike
      obtain rfl : result' = result := hreply
      cases result' with
      | ok x => exact hf x c c' halike
      | error cause => exact ⟨rfl, halike⟩

lemma Blind.read {f : Builder → Build α} (hread : ∀ (b : Builder) maps, f (b.withMaps maps) = f b)
    (hf : ∀ b, Blind (f b)) : Blind (get >>= f) := by
  rintro b b' ⟨maps, rfl⟩
  rw [run_get_bind, run_get_bind, hread]
  exact hf b b _ ⟨maps, rfl⟩

/-- The lists may differ before and after; the step answers nothing. -/
lemma openProperties_blind (type : Nat) : Blind (openProperties type) := by
  rintro b b' ⟨maps, rfl⟩
  rw [run_openProperties_eq, run_openProperties_eq]
  have hlist : Alike b (b.withList type) := b.withList_eq type
  have hlist' : Alike (b.withMaps maps) ((b.withMaps maps).withList type) := withList_eq _ type
  exact ⟨rfl, hlist.symm.trans (.trans ⟨maps, rfl⟩ hlist')⟩

lemma blind_judges (parts : List Part) : Judges (fun _ step => Blind step) parts where
  ofExcept := .ofExcept
  bind := .bind
  read := .read
  intern := by
    rintro text b b' ⟨maps, rfl⟩
    exact ⟨rfl, maps, rfl⟩
  pushBlob blob := by
    refine .read (fun _ _ => rfl) fun b => (Blind.ofExcept _).bind fun pushed => ?_
    exact (Blind.modify fun _ _ => rfl).bind fun _ => .ofExcept (.ok _)
  edit _ hedit := by
    cases hedit with
    | list type => exact openProperties_blind type
    | _ => exact .modify fun _ _ => rfl

/-- No call looks at the lists of properties, except to open one. -/
lemma step_blind (call : BuildCall) : Blind call.step :=
  (blind_judges call.parts).step (List.Subset.refl _)

end Blind

section Refusal

variable {blob : Bytes} {encoding : Except Malformed Bytes}

/-- A result that can fail for one reason only: something encoded is too long for the heap. -/
def Fits (result : Except Malformed α) : Prop :=
  ∀ cause, result = .error cause → ∃ size, cause = .tooLarge size ∧ compressedLimit < size

lemma Fits.ok (x : α) : Fits (.ok x) := nofun

lemma Fits.error (h : Fits (.error cause : Except Malformed α)) : Fits (.error cause : Except Malformed β) := by
  intro other hother
  cases hother
  exact h cause rfl

lemma writeCompressed_fits (value : Nat) : Fits (writeCompressed value) := by
  intro cause hcause
  unfold writeCompressed at hcause
  split_ifs at hcause with hone htwo hfour
  cases hcause
  exact ⟨value, rfl, Nat.lt_of_not_le hfour⟩

lemma push_fits (heap : BlobHeap) (blob : Bytes) : Fits (heap.push blob) := by
  have hlength := writeCompressed_fits blob.length
  unfold BlobHeap.push
  split
  · exact .ok _
  · cases hwrite : writeCompressed blob.length with
    | ok length => exact .ok _
    | error cause =>
      rw [hwrite] at hlength
      exact hlength.error

/-- A step that leaves the open type alone and fails only where something encoded is too long. -/
def Stores (opened : Option Nat) (step : Build α) : Prop :=
  ∀ b, b.openType = opened → Fits (run step b).1 ∧ (run step b).2.openType = opened

section Stores

variable {opened : Option Nat} {owner : Nat}

lemma Stores.ofExcept {result : Except Malformed α} (h : Fits result) :
    Stores opened (MonadExcept.ofExcept result) := by
  intro b hopen
  rw [run_ofExcept]
  exact ⟨h, hopen⟩

lemma Stores.pure (x : α) : Stores opened (pure x) := .ofExcept (.ok x)

lemma Stores.read {f : Builder → Build α} (hf : ∀ b, Stores opened (f b)) : Stores opened (get >>= f) :=
  fun b => hf b b

lemma Stores.change (f : Module → Module) : Stores opened (modifyModule f) := fun _ hopen => ⟨.ok (), hopen⟩

lemma Stores.bind {f : α → Build β} (hstep : Stores opened step) (hf : ∀ x, Stores opened (f x)) :
    Stores opened (step >>= f) := by
  intro b hopen
  obtain ⟨hfits, hkept⟩ := hstep b hopen
  rw [run_bind]
  cases hrun : run step b with
  | mk result c =>
    rw [hrun] at hfits hkept
    cases result with
    | ok x => exact hf x c hkept
    | error cause => exact ⟨hfits.error, hkept⟩

lemma intern_stores (text : String) : Stores opened (intern text) := fun _ hopen => ⟨.ok _, hopen⟩

lemma pushBlob_stores (blob : Bytes) : Stores opened (pushBlob blob) := by
  refine .read fun b => (Stores.ofExcept (push_fits b.module.blobs blob)).bind fun _ => ?_
  exact (Stores.change _).bind fun _ => .pure _

lemma assemblyReference_stores (name : String) : Stores opened (assemblyReference name) := by
  intro b hopen
  rw [run_assemblyReference]
  split <;> exact ⟨.ok _, hopen⟩

lemma typeReference_stores (scope : RefScope) (ns name : String) :
    Stores opened (typeReference scope ns name) := by
  intro b hopen
  rw [run_typeReference]
  split <;> exact ⟨.ok _, hopen⟩

lemma requireType_stores : Stores (some owner) requireType := by
  intro b hopen
  rw [run_requireType, hopen]
  exact ⟨.ok owner, hopen⟩

lemma addParams_stores (sequence : Nat) (names : List String) : Stores opened (addParams sequence names) := by
  induction names generalizing sequence with
  | nil => exact .pure ()
  | cons name names ih =>
    exact (intern_stores name).bind fun _ => (Stores.change _).bind fun _ => ih (sequence + 1)

/-- With a type open and a signature that can be encoded, a method is not refused. -/
lemma addMethod_stores (hwrite : sig.write = .ok blob) (flags : Nat) (name : String)
    (names : List String) : Stores (some owner) (addMethod flags name sig names) := by
  refine requireType_stores.bind fun _ => (Stores.ofExcept (hwrite ▸ .ok blob)).bind fun _ => ?_
  refine (intern_stores name).bind fun _ => (pushBlob_stores _).bind fun _ => ?_
  refine (Stores.change _).bind fun _ => (addParams_stores 1 names).bind fun _ => ?_
  exact .read fun _ => .pure _

lemma addAccessor_stores (hwrite : sig.write = .ok blob) (isThere reads : Bool) (name : String)
    (names : List String) (property : Nat) :
    Stores (some owner) (addAccessor isThere reads name sig names property) := by
  unfold addAccessor
  split
  · exact (addMethod_stores hwrite _ name names).bind fun _ => .change _
  · exact .pure ()

lemma accessor_write (h : PropertySig.write ⟨true, type, []⟩ = .ok blob) :
    (∃ getter, (instanceSig type []).write = .ok getter) ∧
      ∃ setter, (instanceSig (.builtin .void) [type]).write = .ok setter := by
  obtain ⟨count, -, h⟩ := bind_eq_ok h
  obtain ⟨written, hwritten, -⟩ := bind_eq_ok h
  have hwritten : type.write = .ok written := hwritten
  constructor
  · apply Exists.intro
    rw [MethodSig.write, instanceSig, hwritten]
    rfl
  · apply Exists.intro
    rw [MethodSig.write, instanceSig, SigType.writeAll, hwritten]
    rfl

lemma addProperty_stores (hwrite : PropertySig.write ⟨true, type, []⟩ = .ok blob) (name : String)
    (getter setter : Bool) : Stores (some owner) (addProperty name type getter setter) := by
  obtain ⟨⟨_, hgetter⟩, _, hsetter⟩ := accessor_write hwrite
  refine requireType_stores.bind fun _ => (Stores.change _).bind fun _ => ?_
  refine (Stores.ofExcept (hwrite ▸ .ok blob)).bind fun _ => (intern_stores name).bind fun _ => ?_
  refine (pushBlob_stores _).bind fun _ => (Stores.change _).bind fun _ => .read fun _ => ?_
  refine (addAccessor_stores hgetter getter true _ [] _).bind fun _ => ?_
  exact (addAccessor_stores hsetter setter false _ ["value"] _).bind fun _ => .pure _

end Stores

/-- A run that succeeds, is refused without a trace, or meets something too long. -/
def Settles (b : Builder) (encoding : Except Malformed Bytes) (ran : Except Malformed α × Builder) : Prop :=
  ∀ cause, ran.1 = .error cause →
    (isRefusal encoding cause = true ∧ Alike b ran.2) ∨
      (isRefusal encoding cause = false ∧ ∃ size, cause = .tooLarge size ∧ compressedLimit < size)

lemma Settles.refused (hcause : isRefusal encoding cause = true) (h : Alike b b') :
    Settles (α := α) b encoding (.error cause, b') := by
  intro other hother
  cases hother
  exact .inl ⟨hcause, h⟩

lemma Settles.fits {ran : Except Malformed α × Builder} (h : Fits ran.1) : Settles b (.ok blob) ran := by
  intro cause hcause
  obtain ⟨size, rfl, hsize⟩ := h cause hcause
  exact .inr ⟨isRefusal_tooLarge blob size, size, rfl, hsize⟩

lemma Settles.map (f : α → β) (h : Settles b encoding (run step b)) : Settles b encoding (run (f <$> step) b) := by
  intro cause hcause
  rw [run_map] at hcause ⊢
  cases hresult : (run step b).1 with
  | ok x =>
    rw [hresult] at hcause
    cases hcause
  | error other =>
    rw [hresult] at hcause
    obtain rfl := Except.error.inj hcause
    exact h other hresult

/-- A step that encodes first is refused before it does anything. -/
lemma Settles.encoded {f : Bytes → Build α} (hf : ∀ blob, Stores b.openType (f blob)) :
    Settles b encoding (run (MonadExcept.ofExcept encoding >>= f) b) := by
  rw [run_bind, run_ofExcept]
  cases encoding with
  | error cause => exact .refused (isRefusal_encoding cause) (.refl b)
  | ok blob => exact .fits (hf blob b rfl).1

lemma typeSpecification_settles (sig : SigType) (b : Builder) :
    Settles b sig.write (run (typeSpecification sig) b) := by
  refine Settles.encoded fun blob => (pushBlob_stores blob).bind fun _ => ?_
  exact (Stores.change _).bind fun _ => .read fun _ => .pure _

lemma memberReference_settles (parent : Token) (name : String) (sig : MethodSig) (b : Builder) :
    Settles b sig.write (run (memberReference parent name sig) b) := by
  refine Settles.encoded fun blob => (intern_stores name).bind fun _ => (pushBlob_stores blob).bind fun _ => ?_
  exact (Stores.change _).bind fun _ => .read fun _ => .pure _

lemma addAttribute_settles (parent : AttributeParent) (constructor : AttributeConstructor)
    (value : AttributeValue) (b : Builder) :
    Settles b value.write (run (addAttribute parent constructor value) b) :=
  Settles.encoded fun blob => (pushBlob_stores blob).bind fun _ => .change _

lemma setBase_settles (type : Nat) (base : Token) (b : Builder) :
    Settles b (.ok []) (run (setBase type base) b) := by
  rw [run_setBase]
  split
  · exact .refused rfl (.refl b)
  · exact .fits (.ok ())

lemma addMethod_settles (flags : Nat) (name : String) (sig : MethodSig) (names : List String)
    (b : Builder) : Settles b sig.write (run (addMethod flags name sig names) b) := by
  cases hopen : b.openType with
  | none =>
    rw [run_addMethod, hopen]
    exact .refused rfl (.refl b)
  | some owner =>
    cases hwrite : sig.write with
    | error cause =>
      rw [run_addMethod, hopen, hwrite]
      exact .refused (isRefusal_encoding cause) (.refl b)
    | ok blob => exact .fits (addMethod_stores hwrite flags name names b hopen).1

lemma addProperty_settles (name : String) (type : SigType) (getter setter : Bool) (b : Builder) :
    Settles b (PropertySig.write ⟨true, type, []⟩) (run (addProperty name type getter setter) b) := by
  cases hopen : b.openType with
  | none =>
    rw [run_addProperty, hopen]
    exact .refused rfl (.refl b)
  | some owner =>
    cases hwrite : PropertySig.write ⟨true, type, []⟩ with
    | error cause =>
      rw [run_addProperty, hopen, hwrite]
      exact .refused (isRefusal_encoding cause) (b.withList_eq owner)
    | ok blob => exact .fits (addProperty_stores hwrite name getter setter b hopen).1

/-- Every call succeeds, is refused without a trace, or meets something too long. -/
lemma step_settles (call : BuildCall) (b : Builder) : Settles b call.encoding (run call.step b) := by
  cases call with
  | typeSpecification sig => exact (typeSpecification_settles sig b).map _
  | setBase type base => exact (setBase_settles type base b).map _
  | addMethod flags name sig names => exact (addMethod_settles flags name sig names b).map _
  | addConstructor params names => exact (addMethod_settles _ _ _ names b).map _
  | addProperty name type getter setter => exact (addProperty_settles name type getter setter b).map _
  | memberReference parent name sig => exact (memberReference_settles parent name sig b).map _
  | addAttribute parent constructor value => exact (addAttribute_settles parent constructor value b).map _
  | assemblyReference name => exact Settles.map _ (.fits (assemblyReference_stores name b rfl).1)
  | typeReference scope ns name => exact Settles.map _ (.fits (typeReference_stores scope ns name b rfl).1)
  | externalType assembly ns name =>
    have hstores : Stores b.openType (externalType assembly ns name) :=
      (assemblyReference_stores assembly).bind fun row => typeReference_stores (.assembly row) ns name
    exact Settles.map _ (.fits (hstores b rfl).1)
  | defineType flags ns name base => exact .fits (.ok _)
  | addInterface type interface => exact .fits (.ok _)
  | addGenericParam owner name => exact .fits (.ok _)
  | addConstraint param constraint => exact .fits (.ok _)
  | openType => exact .fits (.ok _)

lemma tooLarge_of_not_isRefused (hkept : Exchange.isRefused ⟨call, b.reply call⟩ = false)
    (hreply : b.reply call = .error cause) : ∃ size, cause = .tooLarge size ∧ compressedLimit < size := by
  rw [hreply] at hkept
  rcases step_settles call b cause hreply with ⟨hrefused, -⟩ | ⟨-, hsize⟩
  · exact absurd (hrefused.symm.trans hkept) (by decide)
  · exact hsize

/-- A call that is refused leaves no trace but a list of properties. -/
lemma alike_of_isRefused (h : Exchange.isRefused ⟨call, b.reply call⟩ = true) :
    (∃ cause, b.reply call = .error cause) ∧ Alike b (b.after call) := by
  cases hreply : b.reply call with
  | ok reply =>
    rw [hreply] at h
    cases h
  | error cause =>
    rw [hreply] at h
    rcases step_settles call b cause hreply with ⟨-, halike⟩ | ⟨hkept, -⟩
    · exact ⟨⟨cause, rfl⟩, halike⟩
    · exact absurd (hkept.symm.trans h) (by decide)

end Refusal

section Simulation

lemma Alike.reply (h : Alike b b') (call : BuildCall) : b'.reply call = b.reply call :=
  (step_blind call b b' h).1

lemma Alike.after (h : Alike b b') (call : BuildCall) : Alike (b.after call) (b'.after call) :=
  (step_blind call b b' h).2

lemma Alike.properties (h : Alike b b') : b'.module.properties = b.module.properties := by
  obtain ⟨maps, rfl⟩ := h
  rfl

lemma Alike.openType (h : Alike b b') : b'.openType = b.openType := by
  obtain ⟨maps, rfl⟩ := h
  rfl

lemma Alike.propertiesAdded (h : Alike b b') (call : BuildCall) :
    b'.propertiesAdded call = b.propertiesAdded call := by
  rw [Builder.propertiesAdded, Builder.propertiesAdded, rowsAdded, rowsAdded, h.openType, h.reply call,
    h.properties, (h.after call).properties]

/-- Builders that differ in lists of properties only give the same answers ever after. -/
lemma Alike.transcript (h : Alike b b') (calls : List BuildCall) :
    b'.transcript calls = b.transcript calls ∧ b'.propertyJournal calls = b.propertyJournal calls ∧
      Alike (b.afterAll calls) (b'.afterAll calls) := by
  induction calls generalizing b b' with
  | nil => exact ⟨rfl, rfl, h⟩
  | cons call calls ih =>
    obtain ⟨htranscript, hjournal, halike⟩ := ih (h.after call)
    refine ⟨?_, ?_, halike⟩
    · rw [Builder.transcript, Builder.transcript, h.reply call, htranscript]
    · rw [propertyJournal, propertyJournal, h.propertiesAdded call, hjournal]

/-- The calls that are not refused, with their answers. -/
def kept (b : Builder) (calls : List BuildCall) : List Exchange :=
  (b.transcript calls).filter (!·.isRefused)

lemma kept_refused (h : Exchange.isRefused ⟨call, b.reply call⟩ = true) (calls : List BuildCall) :
    b.kept (call :: calls) = (b.after call).kept calls := by
  simp [kept, transcript, h]

lemma kept_cons (h : Exchange.isRefused ⟨call, b.reply call⟩ = false) (calls : List BuildCall) :
    b.kept (call :: calls) = ⟨call, b.reply call⟩ :: (b.after call).kept calls := by
  simp [kept, transcript, h]

lemma propertiesAdded_refused (h : Exchange.isRefused ⟨call, b.reply call⟩ = true) : b.propertiesAdded call = [] := by
  obtain ⟨⟨cause, hcause⟩, halike⟩ := alike_of_isRefused h
  have hcount : b.rowsAdded call call.propertyCount (·.properties.size) = 0 := by
    rw [rowsAdded, hcause, halike.properties]
    exact Nat.sub_self _
  rw [propertiesAdded, hcount]
  split <;> rfl

/-- The calls that are not refused answer the same without the others. -/
lemma transcript_kept (b : Builder) (calls : List BuildCall) :
    b.transcript ((b.kept calls).map (·.call)) = b.kept calls ∧
      b.propertyJournal ((b.kept calls).map (·.call)) = b.propertyJournal calls ∧
      Alike (b.afterAll calls) (b.afterAll ((b.kept calls).map (·.call))) := by
  induction calls generalizing b with
  | nil => exact ⟨rfl, rfl, .refl b⟩
  | cons call calls ih =>
    obtain ⟨htranscript, hjournal, halike⟩ := ih (b.after call)
    cases hrefused : Exchange.isRefused ⟨call, b.reply call⟩ with
    | true =>
      -- The builder before the call stands in for the one after it.
      have hsame := (alike_of_isRefused hrefused).2.symm.transcript
        (((b.after call).kept calls).map (·.call))
      rw [kept_refused hrefused, propertyJournal, propertiesAdded_refused hrefused]
      exact ⟨hsame.1.trans htranscript, hsame.2.1.trans hjournal, halike.trans hsame.2.2⟩
    | false =>
      rw [kept_cons hrefused, List.map_cons, transcript, htranscript, propertyJournal, hjournal]
      exact ⟨rfl, rfl, halike⟩

lemma kept_tooLarge {calls : List BuildCall} {made : Exchange} (hmem : made ∈ b.kept calls)
    (hcause : made.reply = .error cause) : ∃ size, cause = .tooLarge size ∧ compressedLimit < size := by
  induction calls generalizing b with
  | nil => cases hmem
  | cons call calls ih =>
    cases hrefused : Exchange.isRefused ⟨call, b.reply call⟩ with
    | true =>
      rw [kept_refused hrefused] at hmem
      exact ih hmem
    | false =>
      rw [kept_cons hrefused] at hmem
      rcases List.mem_cons.mp hmem with rfl | hrest
      · exact tooLarge_of_not_isRefused hrefused hcause
      · exact ih hrest

/-- The same properties are noted with and without the refused calls, so the lists agree although
the rows that say where they begin may not. -/
lemma Ledger.propertiesOf_kept {methods : List MethodEntry} {properties : List PropertyEntry}
    (h : b.Ledger methods properties) (calls : List BuildCall) (type : Nat) :
    (b.afterAll ((b.kept calls).map (·.call))).module.propertiesOf type =
      (b.afterAll calls).module.propertiesOf type := by
  have hall := h.afterAll calls
  have hkept := h.afterAll ((b.kept calls).map (·.call))
  rw [hkept.propertiesOf type, hall.propertiesOf type, (b.transcript_kept calls).2.1]

/-- Without the calls that were refused, every other call answers as it did and the module
answers every question as it did. What else can fail is something too long for the heap. -/
theorem refused_calls_leave_no_trace (assembly : String) (calls : List BuildCall) :
    let start := ofAssembly assembly
    let others := (start.transcript calls).filter (!·.isRefused)
    start.transcript (others.map (·.call)) = others ∧
      (∀ (α : Type) (question : Question α),
        (start.afterAll (others.map (·.call))).module.answer question =
          (start.afterAll calls).module.answer question) ∧
      ∀ made ∈ others, ∀ cause, made.reply = .error cause →
        ∃ size, cause = .tooLarge size ∧ compressedLimit < size := by
  intro start others
  obtain ⟨htranscript, -, halike⟩ := start.transcript_kept calls
  refine ⟨htranscript, ?_, fun made hmem cause hcause => kept_tooLarge hmem hcause⟩
  intro α question
  have hproperties := (Ledger.initial assembly).propertiesOf_kept calls
  obtain ⟨maps, hmaps⟩ := halike
  rw [hmaps] at hproperties
  change (start.afterAll ((start.kept calls).map (·.call))).module.answer question = _
  rw [hmaps]
  exact Module.answer_withMaps _ maps hproperties question

end Simulation

end Builder

end TypeAtlas.Metadata
