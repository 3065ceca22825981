import TypeAtlas.Proofs.Interning
import TypeAtlas.Proofs.MemberRows

/-!
Rows of references. An assembly is found again by the offset of its name, a type by a list that
is kept beside the table, and a type of another assembly by both. Main statement: of calls that
ask for a reference of one kind, those that ask for the same get the same row and no others do,
and whatever is called later, the row reads as it was asked for.

A request is filed under its row. No call takes it out again, and a row reads as one request only;
so two requests of one kind that are filed under one row are the same.
-/

namespace TypeAtlas.Metadata

/-- What a call asks a row for. -/
inductive Request where
  | assembly (name : String)
  | type (scope : RefScope) (ns name : String)
  /-- A type of another assembly. -/
  | external (assembly ns name : String)
deriving DecidableEq

namespace Request

def call : Request → BuildCall
  | assembly name => .assemblyReference name
  | type scope ns name => .typeReference scope ns name
  | external home ns name => .externalType home ns name

/-- How a row is answered. -/
def answer (row : Nat) : Request → Reply
  | assembly _ => .row row
  | type .. | external .. => .token (.reference row)

/-- Two requests of one kind. -/
def Alike : Request → Request → Prop
  | assembly _, assembly _ | type .., type .. | external .., external .. => True
  | _, _ => False

def names : Request → List String
  | assembly name => [name]
  | type _ ns name => [ns, name]
  | external home ns name => [home, ns, name]

/-- The row of a reference to an assembly gives back its name. -/
def NamesAssembly (m : Module) (row : Nat) (name : String) : Prop :=
  ∃ found, m.assemblyRef row = .ok found ∧ m.strings.get found.name = .ok name

/-- The row of a module gives back the scope, the namespace and the name of the request. -/
def ReadFrom (m : Module) (row : Nat) : Request → Prop
  | assembly name => NamesAssembly m row name
  | type scope ns name => ∃ found, m.typeRef row = .ok found ∧ found.scope = scope ∧
      m.typeName (.reference row) = .ok (some (ns, name))
  | external home ns name => ∃ found place, m.typeRef row = .ok found ∧ found.scope = .assembly place ∧
      NamesAssembly m place home ∧ m.referenceAssembly row = .ok home ∧
      m.typeName (.reference row) = .ok (some (ns, name))

end Request

namespace Builder

variable {α β : Type} {b b' b'' : Builder} {row : Nat} {request : Request} {name ns : String}

/-- The row of an assembly by its name, if there is one. -/
def assemblyRow? (b : Builder) (name : String) : Option Nat := do
  let offset ← b.module.strings.offset? name
  let place ← b.module.assemblyRefs.findIdx? (·.name == offset)
  pure (place + 1)

/-- The row that a request is filed under. -/
def row? (b : Builder) : Request → Option Nat
  | .assembly name => b.assemblyRow? name
  | .type scope ns name => b.references.lookup (scope, ns, name)
  | .external home ns name => do
    let place ← b.assemblyRow? home
    b.references.lookup (.assembly place, ns, name)

/-- The row of a type is what its key says, by the offsets of its texts. -/
def FiledAt (b : Builder) (key : RefScope × String × String) (row : Nat) : Prop :=
  ∃ found, b.module.typeRef row = .ok found ∧ found.scope = key.1 ∧
    b.module.strings.offset? key.2.1 = some found.ns ∧ b.module.strings.offset? key.2.2 = some found.name

/-- A builder whose list of references is in step with its table. -/
structure Filed (b : Builder) : Prop where
  strings : b.module.strings.Orderly
  references : ∀ key row, b.references.lookup key = some row → b.FiledAt key row

lemma Filed.initial (assembly : String) : (ofAssembly assembly).Filed where
  strings := .initial
  references := fun _ _ hlookup => by cases hlookup

/-! What is filed can be read. -/

lemma name_of_assemblyRow? (h : b.assemblyRow? name = some row) :
    ∃ found, b.module.assemblyRef row = .ok found ∧ b.module.strings.offset? name = some found.name := by
  obtain ⟨offset, hoffset, h⟩ := Option.bind_eq_some_iff.mp h
  obtain ⟨place, hplace, h⟩ := Option.bind_eq_some_iff.mp h
  cases h
  obtain ⟨hlt, hname, -⟩ := Array.findIdx?_eq_some_iff_getElem.mp hplace
  refine ⟨b.module.assemblyRefs[place], ?_, ?_⟩
  · simp [Module.assemblyRef, Module.row, hlt]
  · rw [hoffset, eq_of_beq hname]

lemma row?_external {home : String} (h : b.row? (.external home ns name) = some row) :
    ∃ place, b.assemblyRow? home = some place ∧ b.references.lookup (.assembly place, ns, name) = some row :=
  Option.bind_eq_some_iff.mp h

section

variable (hb : b.Filed)

include hb

lemma assemblyRow?_injective {other : String} (h : b.assemblyRow? name = some row)
    (h' : b.assemblyRow? other = some row) : name = other := by
  obtain ⟨found, hrow, hname⟩ := name_of_assemblyRow? h
  obtain ⟨found', hrow', hother⟩ := name_of_assemblyRow? h'
  obtain rfl := Except.ok.inj (hrow.symm.trans hrow')
  exact hb.strings.offset?_injective hname hother

lemma key_injective {key other : RefScope × String × String} (h : b.references.lookup key = some row)
    (h' : b.references.lookup other = some row) : key = other := by
  obtain ⟨found, hrow, hscope, hns, hname⟩ := hb.references key row h
  obtain ⟨found', hrow', hscope', hns', hname'⟩ := hb.references other row h'
  obtain rfl := Except.ok.inj (hrow.symm.trans hrow')
  exact Prod.ext (hscope.symm.trans hscope')
    (Prod.ext (hb.strings.offset?_injective hns hns') (hb.strings.offset?_injective hname hname'))

/-- Requests of one kind under one row are the same. -/
lemma row?_injective {other : Request} (halike : request.Alike other) (h : b.row? request = some row)
    (h' : b.row? other = some row) : request = other := by
  cases request with
  | assembly name =>
    cases other with
    | assembly name' => rw [assemblyRow?_injective hb h h']
    | type | external => cases halike
  | type scope ns name =>
    cases other with
    | type scope' ns' name' => cases key_injective hb h h'; rfl
    | assembly | external => cases halike
  | external home ns name =>
    cases other with
    | external home' ns' name' =>
      obtain ⟨place, hplace, hrow⟩ := row?_external h
      obtain ⟨place', hplace', hrow'⟩ := row?_external h'
      cases key_injective hb hrow hrow'
      rw [assemblyRow?_injective hb hplace hplace']
    | assembly | type => cases halike

lemma get_of_offset? {text : String} {offset : Nat} (h : b.module.strings.offset? text = some offset)
    (hzero : '\x00' ∉ text.toList) : b.module.strings.get offset = .ok text := by
  rw [hb.strings.get_offset? h, Text.untilZero_eq_self hzero]

lemma assembly_readFrom (h : b.assemblyRow? name = some row) (hzero : '\x00' ∉ name.toList) :
    Request.NamesAssembly b.module row name := by
  obtain ⟨found, hrow, hname⟩ := name_of_assemblyRow? h
  exact ⟨found, hrow, get_of_offset? hb hname hzero⟩

lemma type_readFrom {scope : RefScope} (h : b.references.lookup (scope, ns, name) = some row)
    (hns : '\x00' ∉ ns.toList) (hname : '\x00' ∉ name.toList) : (Request.type scope ns name).ReadFrom b.module row := by
  obtain ⟨found, hrow, hscope, hgetNs, hgetName⟩ := hb.references _ row h
  refine ⟨found, hrow, hscope, ?_⟩
  simp only [Module.typeName, hrow]
  change (do
    let ns ← b.module.strings.get found.ns
    let name ← b.module.strings.get found.name
    pure (some (ns, name))) = _
  rw [get_of_offset? hb hgetNs hns, get_of_offset? hb hgetName hname]
  rfl

/-- A request reads from its row as it was made. -/
lemma readFrom_of_row? (h : b.row? request = some row) (hzero : ∀ name ∈ request.names, '\x00' ∉ name.toList) :
    request.ReadFrom b.module row := by
  cases request with
  | assembly name => exact assembly_readFrom hb h (hzero name (by simp [Request.names]))
  | type scope ns name =>
    exact type_readFrom hb h (hzero ns (by simp [Request.names])) (hzero name (by simp [Request.names]))
  | external home ns name =>
    obtain ⟨place, hplace, hrow⟩ := row?_external h
    obtain ⟨found, hfound, hscope, hname⟩ := type_readFrom hb hrow (hzero ns (by simp [Request.names]))
      (hzero name (by simp [Request.names]))
    have hhome := assembly_readFrom hb hplace (hzero home (by simp [Request.names]))
    refine ⟨found, place, hfound, hscope, hhome, ?_, hname⟩
    obtain ⟨entry, hentry, hget⟩ := hhome
    simp [Module.referenceAssembly, hfound, hscope, Module.scopeAssembly, hentry, hget, Except.mapError]

end

/-! What is filed stays. -/

/-- The second builder is in step if the first is, and has all requests where the first has them. -/
structure Keeps (b b' : Builder) : Prop where
  filed : b.Filed → b'.Filed
  assemblies : ∀ name row, b.assemblyRow? name = some row → b'.assemblyRow? name = some row
  references : ∀ key row, b.references.lookup key = some row → b'.references.lookup key = some row

namespace Keeps

lemma refl (b : Builder) : b.Keeps b := ⟨id, fun _ _ h => h, fun _ _ h => h⟩

lemma trans (h : b.Keeps b') (h' : b'.Keeps b'') : b.Keeps b'' where
  filed := h'.filed ∘ h.filed
  assemblies := fun name row hrow => h'.assemblies name row (h.assemblies name row hrow)
  references := fun key row hrow => h'.references key row (h.references key row hrow)

lemma row? (h : b.Keeps b') (hrow : b.row? request = some row) : b'.row? request = some row := by
  cases request with
  | assembly name => exact h.assemblies name row hrow
  | type scope ns name => exact h.references _ row hrow
  | external home ns name =>
    obtain ⟨place, hplace, hrow⟩ := row?_external hrow
    exact Option.bind_eq_some_iff.mpr ⟨place, h.assemblies home place hplace, h.references _ row hrow⟩

/-- Where the texts and the two tables stay, everything stays. -/
lemma ofSame (hstrings : b'.module.strings = b.module.strings)
    (hassemblies : b'.module.assemblyRefs = b.module.assemblyRefs)
    (htypes : b'.module.typeRefs = b.module.typeRefs) (hreferences : b'.references = b.references) :
    b.Keeps b' where
  filed := by
    intro hb
    refine ⟨hstrings ▸ hb.strings, fun key row hrow => ?_⟩
    rw [hreferences] at hrow
    simpa only [FiledAt, Module.typeRef, hstrings, htypes] using hb.references key row hrow
  assemblies := by
    intro name row hrow
    simpa only [assemblyRow?, hstrings, hassemblies] using hrow
  references := by
    intro key row hrow
    rwa [hreferences]

lemma interned (b : Builder) (text : String) : b.Keeps (b.interned text) where
  filed := by
    intro hb
    refine ⟨hb.strings.intern text, fun key row hrow => ?_⟩
    obtain ⟨found, hfound, hscope, hns, hname⟩ := hb.references key row hrow
    exact ⟨found, hfound, hscope, StringHeap.offset?_internAll hns [text],
      StringHeap.offset?_internAll hname [text]⟩
  assemblies := by
    intro name row hrow
    obtain ⟨offset, hoffset, hrow⟩ := Option.bind_eq_some_iff.mp hrow
    exact Option.bind_eq_some_iff.mpr ⟨offset, StringHeap.offset?_internAll hoffset [text], hrow⟩
  references := fun _ _ hrow => hrow

end Keeps

/-- A step that keeps what is filed, whether it succeeds or fails. -/
def Keeping (step : Build α) : Prop := ∀ b : Builder, b.Keeps (run step b).2

lemma keeping_judges {parts : List Part}
    (hparts : ∀ part ∈ parts, part ∉ [Part.assemblyRefs, .typeRefs, .references]) :
    Judges (fun _ step => Keeping step) parts := by
  refine .ofRelation .refl .trans .interned (fun b _ _ _ _ => .ofSame rfl rfl rfl rfl) fun hpart hedit b => ?_
  have hother := hparts _ hpart
  cases hedit with
  | assemblyRef | typeRef | reference => exact absurd hother (by decide)
  | list type =>
    obtain ⟨maps, hmaps⟩ := b.withList_eq type
    dsimp only
    rw [run_openProperties_eq, hmaps]
    exact .ofSame rfl rfl rfl rfl
  | _ => exact .ofSame rfl rfl rfl rfl

/-! The calls that ask for a reference. -/

/-- The step gives a row, files the request under it and keeps what is filed. -/
def Files (step : Build α) (request : Request) (reply : Nat → α) : Prop :=
  ∀ b : Builder, ∃ row, (run step b).1 = .ok (reply row) ∧ (run step b).2.row? request = some row ∧
    b.Keeps (run step b).2

lemma offset?_interned (b : Builder) (text : String) :
    (b.interned text).module.strings.offset? text = some (b.module.strings.intern text).1 :=
  (StringHeap.offset?_intern _ text text).trans (if_pos rfl)

lemma keeps_withAssembly (b : Builder) (offset : Nat) : b.Keeps (b.withAssembly offset) where
  filed := fun hb => ⟨hb.strings, hb.references⟩
  assemblies := by
    intro name row hrow
    obtain ⟨place, hplace, hrow⟩ := Option.bind_eq_some_iff.mp hrow
    refine Option.bind_eq_some_iff.mpr ⟨place, hplace, ?_⟩
    obtain ⟨i, hi, hrow⟩ := Option.bind_eq_some_iff.mp hrow
    refine Option.bind_eq_some_iff.mpr ⟨i, ?_, hrow⟩
    change (b.module.assemblyRefs.push ⟨offset⟩).findIdx? _ = some i
    rw [Array.findIdx?_push, hi]
    rfl
  references := fun _ _ hrow => hrow

lemma assemblyReference_files (name : String) : Files (assemblyReference name) (.assembly name) id := by
  intro b
  have hoffset := offset?_interned b name
  rw [run_assemblyReference]
  cases hfound : b.module.assemblyRefs.findIdx? (·.name == (b.module.strings.intern name).1) with
  | some i =>
    refine ⟨i + 1, rfl, ?_, .interned b name⟩
    exact Option.bind_eq_some_iff.mpr ⟨_, hoffset, Option.bind_eq_some_iff.mpr ⟨i, hfound, rfl⟩⟩
  | none =>
    refine ⟨b.module.assemblyRefs.size + 1, rfl, ?_, (Keeps.interned b name).trans (keeps_withAssembly _ _)⟩
    refine Option.bind_eq_some_iff.mpr ⟨_, hoffset, Option.bind_eq_some_iff.mpr ⟨_, ?_, rfl⟩⟩
    change (b.module.assemblyRefs.push ⟨(b.module.strings.intern name).1⟩).findIdx? _ = _
    rw [Array.findIdx?_push, hfound]
    simp

lemma lookup_withFiled (b : Builder) (scope : RefScope) (ns name : String) (key : RefScope × String × String) :
    (b.withFiled scope ns name).references.lookup key =
      if key = (scope, ns, name) then some (b.module.typeRefs.size + 1) else b.references.lookup key := by
  simp only [withFiled, List.lookup_cons]
  by_cases hkey : key = (scope, ns, name)
  · simp [hkey]
  · rw [beq_eq_false_iff_ne.mpr hkey, if_neg hkey]

lemma filedAt_withFiled (b : Builder) (scope : RefScope) (ns name : String) :
    (b.withFiled scope ns name).FiledAt (scope, ns, name) (b.module.typeRefs.size + 1) := by
  refine ⟨referenceRow b scope ns name, Module.row_push_self _ _, rfl, ?_, ?_⟩
  · exact offset?_interned (b.interned name) ns
  · exact StringHeap.offset?_internAll (offset?_interned b name) [ns]

/-- A key that is new is filed besides those that were filed before. -/
lemma keeps_withFiled {scope : RefScope} (hnew : b.references.lookup (scope, ns, name) = none) :
    b.Keeps (b.withFiled scope ns name) := by
  have htexts : b.Keeps ((b.interned name).interned ns) := (Keeps.interned b name).trans (.interned _ ns)
  refine ⟨fun hb => ⟨(htexts.filed hb).strings, fun key row hrow => ?_⟩, htexts.assemblies, fun key row hrow => ?_⟩
  · rw [lookup_withFiled] at hrow
    split at hrow
    · rename_i hkey
      obtain ⟨rfl, rfl⟩ : _ ∧ row = _ := ⟨hkey, (Option.some.inj hrow).symm⟩
      exact filedAt_withFiled b scope ns name
    · obtain ⟨found, hfound, hfields⟩ := (htexts.filed hb).references key row hrow
      exact ⟨found, Module.row_push _ hfound, hfields⟩
  · rw [lookup_withFiled]
    split
    · rename_i hkey
      rw [hkey, hnew] at hrow
      cases hrow
    · exact hrow

lemma typeReference_files (scope : RefScope) (ns name : String) :
    Files (typeReference scope ns name) (.type scope ns name) .reference := by
  intro b
  rw [run_typeReference]
  cases hlookup : b.references.lookup (scope, ns, name) with
  | some row => exact ⟨row, rfl, hlookup, .refl b⟩
  | none =>
    refine ⟨b.module.typeRefs.size + 1, rfl, ?_, keeps_withFiled hlookup⟩
    exact (lookup_withFiled b scope ns name _).trans (if_pos rfl)

lemma Files.keeping {step : Build α} {reply : Nat → α} (h : Files step request reply) : Keeping step := by
  intro b
  obtain ⟨row, -, -, hkeeps⟩ := h b
  exact hkeeps

lemma Files.map {step : Build α} {reply : Nat → α} (h : Files step request reply) (f : α → β) :
    Files (f <$> step) request (f ∘ reply) := by
  intro b
  obtain ⟨row, hreply, hrow, hkeeps⟩ := h b
  rw [run_map, hreply]
  exact ⟨row, rfl, hrow, hkeeps⟩

lemma externalType_files (home ns name : String) :
    Files (externalType home ns name) (.external home ns name) .reference := by
  intro b
  obtain ⟨place, hplace, hhome, hfirst⟩ := assemblyReference_files home b
  rw [externalType, run_bind]
  cases hrun : run (assemblyReference home) b with
  | mk result c =>
    rw [hrun] at hplace hhome hfirst
    obtain rfl : result = .ok place := hplace
    obtain ⟨row, hreply, hrow, hsecond⟩ := typeReference_files (.assembly place) ns name c
    refine ⟨row, hreply, ?_, hfirst.trans hsecond⟩
    exact Option.bind_eq_some_iff.mpr ⟨place, hsecond.assemblies home place hhome, hrow⟩

lemma request_files (request : Request) : Files request.call.step request (request.answer ·) := by
  cases request with
  | assembly name => exact (assemblyReference_files name).map _
  | type scope ns name => exact (typeReference_files scope ns name).map _
  | external home ns name => exact (externalType_files home ns name).map _

lemma step_keeping (call : BuildCall) : Keeping call.step := by
  cases call with
  | assemblyReference name => exact (request_files (.assembly name)).keeping
  | typeReference scope ns name => exact (request_files (.type scope ns name)).keeping
  | externalType home ns name => exact (request_files (.external home ns name)).keeping
  | _ => exact (keeping_judges (by simp [BuildCall.parts])).step (List.Subset.refl _)

lemma keeps_afterAll (b : Builder) (calls : List BuildCall) : b.Keeps (b.afterAll calls) := by
  induction calls generalizing b with
  | nil => exact .refl b
  | cons call calls ih => exact (step_keeping call b).trans (ih (b.after call))

/-- After any calls, a call that asks for a reference gives a row. However many calls come in
between, a call of its kind gives the same answer if and only if it asks for the same, and whatever
is called further, the row reads as it was asked for. -/
theorem reference_rows_interned (assembly : String) (before : List BuildCall) (request : Request) :
    let b := (ofAssembly assembly).afterAll before
    ∃ row, b.reply request.call = .ok (request.answer row) ∧
      (∀ between other, request.Alike other →
        (((b.after request.call).afterAll between).reply other.call = b.reply request.call ↔
          other = request)) ∧
      ∀ further, (∀ name ∈ request.names, '\x00' ∉ name.toList) →
        request.ReadFrom ((b.after request.call).afterAll further).module row := by
  intro b
  have hb : b.Filed := (keeps_afterAll _ before).filed (.initial assembly)
  obtain ⟨row, hreply, hrow, hkeeps⟩ := request_files request b
  refine ⟨row, hreply, fun between other halike => ?_, fun further hzero => ?_⟩
  · -- both requests are filed in the builder behind the second call
    have hthen : b.Keeps ((b.after request.call).afterAll between) := hkeeps.trans (keeps_afterAll _ between)
    obtain ⟨row', hreply', hrow', hkeeps'⟩ := request_files other ((b.after request.call).afterAll between)
    have hfirst := hkeeps'.row? ((keeps_afterAll _ between).row? hrow)
    have hfiled := hkeeps'.filed (hthen.filed hb)
    constructor
    · intro heq
      rw [reply, hreply', reply, hreply] at heq
      obtain rfl : row' = row := by
        cases request <;> cases other <;> cases halike <;> cases heq <;> rfl
      exact (row?_injective hfiled halike hfirst hrow').symm
    · rintro rfl
      obtain rfl := Option.some.inj (hrow'.symm.trans hfirst)
      exact hreply'.trans hreply.symm
  · have hlater : b.Keeps ((b.after request.call).afterAll further) := hkeeps.trans (keeps_afterAll _ further)
    exact readFrom_of_row? (hlater.filed hb) ((keeps_afterAll _ further).row? hrow) hzero

/-- A type of another assembly, asked for again behind a call that refers to the same assembly, one
that asks for the same names elsewhere and one that is refused. -/
theorem reference_rows_interned_object :
    let before : List BuildCall := [.defineType 1 "Shop" "Cart" none, .typeReference .ownModule "System" "Object"]
    let request : Request := .external "Runtime" "System" "Object"
    let between : List BuildCall := [.assemblyReference "Runtime", .externalType "Core" "System" "Object",
      .setBase 9 (.definition 1)]
    let b := (ofAssembly "Shop").afterAll before
    b.reply request.call = .ok (.token (.reference 2)) ∧
      (∀ name ∈ request.names, '\x00' ∉ name.toList) ∧
      ((b.after request.call).afterAll between).reply request.call = b.reply request.call ∧
      ((b.after request.call).afterAll between).reply (.externalType "Core" "System" "Object") ≠
        b.reply request.call ∧
      request.ReadFrom ((b.after request.call).afterAll between).module 2 := by
  intro before request between b
  obtain ⟨row, hreply, hagain, hread⟩ := reference_rows_interned "Shop" before request
  have hrow : b.reply request.call = .ok (.token (.reference 2)) := by decide +kernel
  obtain rfl : row = 2 := by
    rw [hrow] at hreply
    cases hreply
    rfl
  refine ⟨hrow, by decide, (hagain between request trivial).mpr rfl, fun heq => ?_, hread between (by decide)⟩
  have hsame := (hagain between (.external "Core" "System" "Object") trivial).mp heq
  exact absurd hsame (by decide)

end Builder

end TypeAtlas.Metadata
