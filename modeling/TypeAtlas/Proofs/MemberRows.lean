import TypeAtlas.Proofs.Pushing
import TypeAtlas.Proofs.RefusedCalls

/-!
What calls that succeed leave in the tables. Heaps and tables only grow, so a row keeps what it
was made with; accessors and generic parameters are those that the calls ask for, in call order.
Main statement: the methods of a type are, one by one, what the calls on that type made of them,
a method of its own or the first or second accessor of a property (`Ledger.roles`).
-/

namespace TypeAtlas.Metadata

variable {row : AccessorRow} {entry : MethodEntry} {method property : Nat}

/-- What a row of the methods is in source. -/
inductive RowRole where
  /-- A method of its own. -/
  | method (flags : Nat) (name : String) (sig : MethodSig) (names : List String)
  /-- The first accessor of a property. -/
  | leading (name : String) (getter setter : Bool)
  /-- The second accessor of a property. -/
  | trailing

namespace BuildCall

def typeCount : BuildCall → Nat
  | defineType .. => 1
  | _ => 0

/-- The rows of methods that a call adds, by what they are in source. -/
def roles : BuildCall → List RowRole
  | addMethod flags name sig names => [.method flags name sig names]
  | addConstructor params names =>
    [.method (Builder.ordinaryFlags + Builder.specialName + Builder.runtimeSpecialName) ".ctor"
      (Builder.instanceSig (.builtin .void) params) names]
  | addProperty name _ getter setter =>
    (if getter || setter then [.leading name getter setter] else []) ++
      (if getter && setter then [.trailing] else [])
  | _ => []

/-- The accessors that a call adds, where methods go on at `method` and properties at `property`. -/
def accessors (method property : Nat) : BuildCall → List AccessorRow
  | addProperty _ _ getter setter => Builder.accessorRowsFrom getter setter method property
  | _ => []

def generic? : BuildCall → Option (GenericOwner × String)
  | addGenericParam owner name => some (owner, name)
  | _ => none

end BuildCall

/-- The calls that are made while a type is open, where `types` were defined before. -/
def callsOn (type : Nat) : Nat → List BuildCall → List BuildCall
  | _, [] => []
  | types, call :: calls =>
    (if types = type then [call] else []) ++ callsOn type (types + call.typeCount) calls

def accessorsFor : Nat → Nat → List BuildCall → List AccessorRow
  | _, _, [] => []
  | method, property, call :: calls =>
    call.accessors method property ++
      accessorsFor (method + call.paramNames.length) (property + call.propertyCount) calls

lemma mem_accessors {call : BuildCall} (h : row ∈ call.accessors method property) :
    method ≤ row.method ∧ row.method < method + call.paramNames.length ∧ row.property = property ∧
      call.propertyCount = 1 := by
  cases call with
  | addProperty name type getter setter =>
    cases getter <;> cases setter <;>
      simp [BuildCall.accessors, Builder.accessorRowsFrom] at h <;>
      simp [BuildCall.paramNames, BuildCall.propertyCount]
    · simp [h]
    · simp [h]
    · rcases h with rfl | rfl <;> simp
  | _ => cases h

lemma le_of_mem_accessorsFor {calls : List BuildCall} (h : row ∈ accessorsFor method property calls) :
    method ≤ row.method ∧ property ≤ row.property := by
  induction calls generalizing method property with
  | nil => cases h
  | cons call calls ih =>
    rcases List.mem_append.mp h with hfirst | hrest
    · obtain ⟨hle, -, rfl, -⟩ := mem_accessors hfirst
      exact ⟨hle, Nat.le_refl _⟩
    · have hbounds := ih hrest
      omega

/-- No method is an accessor twice. -/
lemma pairwise_accessorsFor (calls : List BuildCall) (method property : Nat) :
    (accessorsFor method property calls).Pairwise (·.method < ·.method) := by
  induction calls generalizing method property with
  | nil => exact .nil
  | cons call calls ih =>
    refine List.pairwise_append.mpr ⟨?_, ih _ _, fun row hrow other hother => ?_⟩
    · cases call with
      | addProperty name type getter setter =>
        cases getter <;> cases setter <;> simp [BuildCall.accessors, Builder.accessorRowsFrom]
      | _ => exact .nil
    · have hlt := (mem_accessors hrow).2.1
      have hle := (le_of_mem_accessorsFor hother).1
      omega

namespace Module

def Names (m : Module) (row : GenericParamRow) (named : GenericOwner × String) : Prop :=
  row.owner = named.1 ∧ m.strings.get row.name = .ok (Text.untilZero named.2)

/-- What a method is in source, of a type that has the properties `properties`. -/
def RoleAt (m : Module) (properties : List Nat) (entry : MethodEntry) : RowRole → Prop
  | .method flags name sig names =>
    m.MethodHead entry.row flags name sig ∧ entry.names = names ∧
      ∀ row ∈ m.accessors.toList, row.method ≠ entry.row
  | .leading name getter setter =>
    (getter || setter) = true ∧ ∃ property ∈ properties, ∃ type, m.PropertyAt property name type ∧
      Builder.accessorRows m property = Builder.accessorRowsFrom getter setter entry.row property
  | .trailing =>
    m.SpecialAt entry.row ∧ ∃ property start, entry.row = start + 1 ∧
      Builder.accessorRows m property = Builder.accessorRowsFrom true true start property

lemma RoleAt.mono {m : Module} {properties properties' : List Nat} {role : RowRole}
    (h : m.RoleAt properties entry role) (hsub : properties ⊆ properties') : m.RoleAt properties' entry role := by
  cases role with
  | method flags name sig names => exact h
  | leading name getter setter =>
    obtain ⟨hsome, property, hmem, hproperty⟩ := h
    exact ⟨hsome, property, hsub hmem, hproperty⟩
  | trailing => exact h

end Module

namespace Builder

variable {owner : Nat}

section Growing

variable {α β : Type} {b b' : Builder}

lemma Grows.names {types : Nat} {accessors : List AccessorRow} {generics : List GenericParamRow}
    (h : b.Grows b' types accessors generics) {row : GenericParamRow} {named : GenericOwner × String}
    (hnames : b.module.Names row named) : b'.module.Names row named :=
  ⟨hnames.1, h.getString hnames.2⟩

/-- A step that adds no type, no accessor and no generic parameter. -/
def Quiet (step : Build α) : Prop := ∀ b : Builder, b.Grows (run step b).2 0 [] []

def Part.quiet : List Part :=
  [assemblyRefs, typeRefs, references, typeSpecs, bases, interfaces, constraints, methods, params, memberRefs,
    attributes]

lemma quiet_judges : Judges (fun _ step => Quiet step) Part.quiet := by
  refine .ofRelation (R := (Grows · · 0 [] [])) .refl .trans (fun b text => ?_) (fun b blob _ blobs hpush => ?_)
    fun hpart hedit b => ?_
  · exact { Grows.refl b with strings := b.module.strings.bytes_prefix_intern text }
  · refine { Grows.refl b with blobs := ?_ }
    have hkept := b.module.blobs.bytes_prefix_pushed blob
    rwa [BlobHeap.pushed_of_ok hpush] at hkept
  · cases hedit with
    | method => exact { Grows.refl b with methods := Module.prefix_push _ _ }
    | base => exact { Grows.refl b with types := by simp [withBase] }
    | typeDef | openType | genericParam | list | property | accessor => exact absurd hpart (by decide)
    | _ => exact { Grows.refl b with }

lemma defineType_grows (flags : Nat) (ns name : String) (base : Option Token) (b : Builder) :
    b.Grows (run (defineType flags ns name base) b).2 1 [] [] := by
  rw [run_defineType]
  refine { Grows.refl b with strings := ?_, types := Array.size_push _ }
  exact (b.module.strings.bytes_prefix_intern name).trans (StringHeap.bytes_prefix_intern _ ns)

lemma addGenericParam_grows (hsound : b.module.strings.Sound) (owner : GenericOwner) (name : String) :
    let c := (run (addGenericParam owner name) b).2
    b.Grows c 0 [] [genericRow b owner name] ∧ c.module.Names (genericRow b owner name) (owner, name) := by
  rw [run_addGenericParam]
  refine ⟨{ Grows.refl b with strings := ?_, generics := Array.toList_push }, rfl, ?_⟩
  · exact b.module.strings.bytes_prefix_intern name
  · exact StringHeap.get_intern hsound name

end Growing

section Calls

variable {b b' : Builder} {methods : List MethodEntry} {properties : List PropertyEntry}
  {call : BuildCall} {calls : List BuildCall} {reply : Reply}

/-- A call that succeeds, by the step it takes. -/
lemma run_step_eq (hreply : b.reply call = .ok reply) : run call.step b = (.ok reply, b.after call) :=
  Prod.ext hreply rfl

/-- A call that succeeds adds the accessors and the generic parameter that it asks for. -/
lemma after_grows (hsound : b.module.strings.Sound) (hreply : b.reply call = .ok reply) :
    ∃ generics, b.Grows (b.after call) call.typeCount
        (call.accessors (b.module.methods.size + 1) (b.module.properties.size + 1)) generics ∧
      List.Forall₂ (b.after call).module.Names generics call.generic?.toList := by
  have hrun := run_step_eq hreply
  cases call with
  | defineType flags ns name base => exact ⟨[], defineType_grows flags ns name base b, .nil⟩
  | addGenericParam owner name =>
    obtain ⟨hgrows, hnamed⟩ := addGenericParam_grows hsound owner name
    exact ⟨_, hgrows, .cons hnamed .nil⟩
  | addProperty name type getter setter =>
    obtain ⟨row, hadd⟩ := run_map_ok hrun
    exact ⟨[], (addProperty_head hsound hadd).1, .nil⟩
  | _ => exact ⟨[], quiet_judges.step (by simp [BuildCall.parts, Part.quiet]) b, .nil⟩

/-- Calls that all succeed. -/
def Succeeds (b : Builder) (calls : List BuildCall) : Prop :=
  ∀ made ∈ b.transcript calls, ∃ reply, made.reply = .ok reply

lemma succeeds_cons : b.Succeeds (call :: calls) ↔
    (∃ reply, b.reply call = .ok reply) ∧ (b.after call).Succeeds calls := by
  simp [Succeeds, transcript]

lemma size_after (hreply : b.reply call = .ok reply) :
    (b.after call).module.methods.size = b.module.methods.size + call.paramNames.length ∧
      (b.after call).module.properties.size = b.module.properties.size + call.propertyCount :=
  ⟨(step_noted call b).methods reply hreply, (step_noted call b).properties reply hreply⟩

/-- Calls that succeed add the accessors and generic parameters that they ask for, in call order. -/
lemma Ledger.grows (h : b.Ledger methods properties) (hok : b.Succeeds calls) :
    ∃ types generics, b.Grows (b.afterAll calls) types
        (accessorsFor (b.module.methods.size + 1) (b.module.properties.size + 1) calls) generics ∧
      List.Forall₂ (b.afterAll calls).module.Names generics (calls.filterMap BuildCall.generic?) := by
  induction calls generalizing b methods properties with
  | nil => exact ⟨0, [], .refl b, .nil⟩
  | cons call calls ih =>
    obtain ⟨⟨reply, hreply⟩, hrest⟩ := succeeds_cons.mp hok
    obtain ⟨hmethods, hproperties⟩ := size_after hreply
    obtain ⟨first, hfirst, hnamed⟩ := after_grows h.tidy.strings hreply
    obtain ⟨types, rest, hgrows, hnames⟩ := ih (h.after call) hrest
    rw [hmethods, hproperties, Nat.add_right_comm, Nat.add_right_comm b.module.properties.size] at hgrows
    refine ⟨_, first ++ rest, hfirst.trans hgrows, ?_⟩
    have hkept : List.Forall₂ ((b.after call).afterAll calls).module.Names first call.generic?.toList :=
      hnamed.imp fun row named hrow => hgrows.names hrow
    have hsplit : (call :: calls).filterMap BuildCall.generic? =
        call.generic?.toList ++ calls.filterMap BuildCall.generic? := by
      cases hgeneric : call.generic? <;> simp [hgeneric]
    rw [hsplit]
    exact List.rel_append hkept hnames

def AccessorsWithin (b : Builder) : Prop :=
  ∀ row ∈ b.module.accessors.toList, row.method ≤ b.module.methods.size ∧
    row.property ≤ b.module.properties.size

lemma AccessorsWithin.after (h : b.AccessorsWithin) (hsound : b.module.strings.Sound)
    (hreply : b.reply call = .ok reply) : (b.after call).AccessorsWithin := by
  intro row hrow
  obtain ⟨generics, hgrows, -⟩ := after_grows hsound hreply
  obtain ⟨hmethods, hproperties⟩ := size_after hreply
  rw [hgrows.accessors] at hrow
  rcases List.mem_append.mp hrow with hold | hnew
  · have hbounds := h row hold
    omega
  · obtain ⟨-, hlt, hproperty, hcount⟩ := mem_accessors hnew
    omega

lemma Ledger.openType_of_reply (h : b.Ledger methods properties) (hreply : b.reply call = .ok reply)
    (hadds : call.paramNames ≠ [] ∨ call.propertyCount = 1) : b.openType = some b.module.typeDefs.size := by
  have hrun := run_step_eq hreply
  have hopen : ∃ owner, b.openType = some owner := by
    cases call with
    | addMethod | addConstructor =>
      obtain ⟨row, hadd⟩ := run_map_ok hrun
      obtain ⟨owner, -, -, -, hopen, -⟩ := run_addMethod_ok hadd
      exact ⟨owner, hopen⟩
    | addProperty name type getter setter =>
      obtain ⟨row, hadd⟩ := run_map_ok hrun
      obtain ⟨owner, -, -, -, -, hopen, -⟩ := run_addProperty_ok hadd
      exact ⟨owner, hopen⟩
    | _ => simp [BuildCall.paramNames, BuildCall.propertyCount] at hadds
  obtain ⟨owner, howner⟩ := hopen
  rw [howner, (h.opened owner howner).2]

lemma owner_of_mem_methodEntries {row param : Nat} {lists : List (List String)}
    (hmem : entry ∈ methodEntries owner row param lists) : entry.owner = owner := by
  induction lists generalizing row param with
  | nil => cases hmem
  | cons names lists ih =>
    rcases List.mem_cons.mp hmem with rfl | hrest
    · rfl
    · exact ih hrest

/-- A call that succeeds adds all its methods to the last type, and none to another. -/
lemma Ledger.filter_methodsAdded (h : b.Ledger methods properties) (hreply : b.reply call = .ok reply)
    (type : Nat) : (b.methodsAdded call).filter (·.owner == type) =
      if b.module.typeDefs.size = type then
        methodEntries type (b.module.methods.size + 1) (b.module.params.size + 1) call.paramNames
      else [] := by
  by_cases hnone : call.paramNames = []
  · unfold methodsAdded
    rw [hnone]
    cases b.openType <;> simp [methodEntries]
  · have hall : b.methodsAdded call = methodEntries b.module.typeDefs.size (b.module.methods.size + 1)
        (b.module.params.size + 1) call.paramNames := by
      rw [methodsAdded, h.openType_of_reply hreply (.inl hnone), rowsAdded, hreply]
      exact List.take_of_length_le (Nat.le_of_eq (length_methodEntries _ _ _ _))
    rw [hall]
    split
    · rename_i htype
      subst htype
      apply List.filter_eq_self.mpr
      intro entry hmem
      simp [owner_of_mem_methodEntries hmem]
    · rename_i htype
      apply List.filter_eq_nil_iff.mpr
      intro entry hmem
      simp [owner_of_mem_methodEntries hmem, htype]

lemma Ledger.propertiesAdded_eq (h : b.Ledger methods properties) (hreply : b.reply call = .ok reply)
    (hcount : call.propertyCount = 1) :
    b.propertiesAdded call = [⟨b.module.properties.size + 1, b.module.typeDefs.size⟩] := by
  rw [propertiesAdded, h.openType_of_reply hreply (.inr hcount), rowsAdded, hreply, hcount]
  rfl

end Calls

section Roles

variable {b c : Builder} {methods : List MethodEntry} {properties : List PropertyEntry} {call : BuildCall}
  {calls : List BuildCall} {reply : Reply} {types : Nat} {generics : List GenericParamRow}
  {accessors : List AccessorRow}

/-- In what a builder grows to, the accessors of the next property are those that are added with
it. -/
lemma accessorRows_of_grows (hwithin : b.AccessorsWithin) {new : List AccessorRow}
    (hgrows : b.Grows c types (new ++ accessors) generics)
    (hnew : ∀ row ∈ new, row.property = b.module.properties.size + 1)
    (hlater : ∀ row ∈ accessors, b.module.properties.size + 2 ≤ row.property) :
    accessorRows c.module (b.module.properties.size + 1) = new := by
  have hold := Module.filter_owner_eq_nil (fun row hrow => (hwithin row (Array.mem_toList_iff.mpr hrow)).2)
    (Nat.lt_succ_self b.module.properties.size)
  have hrest : accessors.filter (·.property == b.module.properties.size + 1) = [] := by
    apply List.filter_eq_nil_iff.mpr
    intro row hrow
    have hle := hlater row hrow
    rw [beq_iff_eq]
    omega
  rw [accessorRows, hgrows.accessors, List.filter_append, List.filter_append, hold, hrest, List.nil_append,
    List.append_nil, List.filter_eq_self]
  intro row hrow
  rw [beq_iff_eq]
  exact hnew row hrow

/-- A method that is added stays a method of its own. -/
lemma method_role (hwithin : b.AccessorsWithin) {flags : Nat} {name : String} {sig : MethodSig}
    {names : List String} (hhead : c.module.MethodHead (b.module.methods.size + 1) flags name sig)
    (hgrows : b.Grows c types accessors generics) (hlater : ∀ row ∈ accessors, b.module.methods.size + 2 ≤ row.method)
    (rows : List Nat) (param : Nat) :
    c.module.RoleAt rows ⟨b.module.methods.size + 1, owner, param, names⟩ (.method flags name sig names) := by
  refine ⟨hhead, rfl, fun row hrow => ?_⟩
  rw [hgrows.accessors] at hrow
  rcases List.mem_append.mp hrow with hold | hnew
  · have hle := (hwithin row hold).1
    dsimp only
    omega
  · have hle := hlater row hnew
    dsimp only
    omega

/-- The rows that a call adds keep their roles in what the builder grows to. -/
lemma Ledger.call_roles (h : b.Ledger methods properties) (hwithin : b.AccessorsWithin)
    (hreply : b.reply call = .ok reply)
    (hgrows : (b.after call).Grows c types accessors generics)
    (hlater : ∀ row ∈ accessors, b.module.methods.size + 1 + call.paramNames.length ≤ row.method ∧
      b.module.properties.size + 1 + call.propertyCount ≤ row.property) {rows : List Nat}
    (hrows : call.propertyCount = 1 → b.module.properties.size + 1 ∈ rows) (owner param : Nat) :
    List.Forall₂ (c.module.RoleAt rows) (methodEntries owner (b.module.methods.size + 1) param call.paramNames)
      call.roles := by
  have hrun := run_step_eq hreply
  obtain ⟨more, hfirst, -⟩ := after_grows h.tidy.strings hreply
  have hall := hfirst.trans hgrows
  cases call with
  | addMethod | addConstructor =>
    obtain ⟨row, hadd⟩ := run_map_ok hrun
    obtain ⟨-, -, -, hhead⟩ := addMethod_head h.tidy.strings hadd
    exact .cons (method_role hwithin (hgrows.methodHead hhead) hall (fun row hrow => (hlater row hrow).1) _ _)
      .nil
  | addProperty name type getter setter =>
    obtain ⟨row, hadd⟩ := run_map_ok hrun
    obtain ⟨-, hproperty, hspecial⟩ := addProperty_head h.tidy.strings hadd
    have hproperty := hgrows.propertyAt hproperty
    have haccessors := accessorRows_of_grows hwithin hall (fun row hrow => (mem_accessors hrow).2.2.1)
      fun row hrow => (hlater row hrow).2
    have hleading : (getter || setter) = true → ∀ names, c.module.RoleAt rows
        ⟨b.module.methods.size + 1, owner, param, names⟩ (.leading name getter setter) :=
      fun hsome names => ⟨hsome, _, hrows rfl, type, hproperty, haccessors⟩
    cases getter with
    | false =>
      cases setter with
      | false => exact .nil
      | true => exact .cons (hleading rfl _) .nil
    | true =>
      cases setter with
      | false => exact .cons (hleading rfl _) .nil
      | true =>
        have hsecond := hgrows.specialAt (hspecial (b.module.methods.size + 2) (by simp))
        exact .cons (hleading rfl _) (.cons ⟨hsecond, _, _, rfl, haccessors⟩ .nil)
  | _ => exact .nil

/-- After calls that succeed, the methods of a type are what the calls on it made of them. -/
lemma Ledger.roles (h : b.Ledger methods properties) (hwithin : b.AccessorsWithin)
    (hok : b.Succeeds calls) (type : Nat) :
    List.Forall₂ ((b.afterAll calls).module.RoleAt (propertyRows type (b.propertyJournal calls)))
      ((b.methodJournal calls).filter (·.owner == type))
      ((callsOn type b.module.typeDefs.size calls).flatMap BuildCall.roles) := by
  induction calls generalizing b methods properties with
  | nil => exact .nil
  | cons call calls ih =>
    obtain ⟨⟨reply, hreply⟩, hrest⟩ := succeeds_cons.mp hok
    have hledger := h.after call
    obtain ⟨hmethods, hproperties⟩ := size_after hreply
    obtain ⟨more, hfirst, -⟩ := after_grows h.tidy.strings hreply
    obtain ⟨types, generics, hgrows, -⟩ := hledger.grows hrest
    have hlater := ih hledger (hwithin.after h.tidy.strings hreply) hrest
    rw [hfirst.types] at hlater
    rw [methodJournal, List.filter_append, h.filter_methodsAdded hreply, callsOn, List.flatMap_append]
    have hrows : propertyRows type (b.propertyJournal (call :: calls)) =
        propertyRows type (b.propertiesAdded call) ++ propertyRows type ((b.after call).propertyJournal calls) := by
      simp [propertyRows, propertyJournal]
    apply List.rel_append
    · split
      · rename_i htype
        subst htype
        rw [List.flatMap_singleton]
        apply h.call_roles hwithin hreply hgrows
        · intro row hrow
          have hbounds := le_of_mem_accessorsFor hrow
          omega
        · intro hcount
          rw [hrows, h.propertiesAdded_eq hreply hcount]
          simp [propertyRows]
      · exact .nil
    · refine hlater.imp fun entry role hrole => hrole.mono ?_
      rw [hrows]
      exact List.subset_append_right _ _

end Roles

end Builder

end TypeAtlas.Metadata
