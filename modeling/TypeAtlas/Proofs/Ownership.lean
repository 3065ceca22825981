import Mathlib.Data.List.Nodup
import TypeAtlas.Proofs.Ledger

/-!
Who owns a row. Each call adds to the journal what it adds to the tables, whether it succeeds or
fails. Main statement: after any calls, the lists of a module are those of the journal.
-/

namespace TypeAtlas.Metadata

namespace Builder

variable {owner : Nat}

section Recording

variable {α β : Type} {b b' b'' : Builder} {lists first rest : List (List String)} {step : Build α}

lemma length_methodEntries (owner row param : Nat) (lists : List (List String)) :
    (methodEntries owner row param lists).length = lists.length := by
  induction lists generalizing row param with
  | nil => rfl
  | cons names lists ih => rw [methodEntries, List.length_cons, ih, List.length_cons]

lemma methodEntries_append (owner row param : Nat) (first rest : List (List String)) :
    methodEntries owner row param (first ++ rest) = methodEntries owner row param first ++
      methodEntries owner (row + first.length) (param + first.flatten.length) rest := by
  induction first generalizing row param with
  | nil => rfl
  | cons names first ih =>
    have hrow : row + 1 + first.length = row + (names :: first).length := by
      rw [List.length_cons]
      omega
    have hparam : param + names.length + first.flatten.length =
        param + (names :: first).flatten.length := by
      rw [List.flatten_cons, List.length_append]
      omega
    rw [List.cons_append, methodEntries, methodEntries, ih, hrow, hparam, List.cons_append]

/-- Of the methods to add, those that got a row on the way from one builder to another. -/
def gained (b b' : Builder) (lists : List (List String)) : List MethodEntry :=
  match b.openType with
  | none => []
  | some owner =>
    (methodEntries owner (b.module.methods.size + 1) (b.module.params.size + 1) lists).take
      (b'.module.methods.size - b.module.methods.size)

lemma gained_nil (b b' : Builder) : b.gained b' [] = [] := by
  unfold gained
  split
  · rfl
  · simp [methodEntries]

lemma gained_same (h : b'.module.methods = b.module.methods) : b.gained b' lists = [] := by
  unfold gained
  split
  · rfl
  · simp [h]

/-- Methods that were not reached got no row. -/
lemma gained_append_left (h : b'.module.methods.size ≤ b.module.methods.size + first.length) :
    b.gained b' (first ++ rest) = b.gained b' first := by
  unfold gained
  split
  · rfl
  · have hnone : b'.module.methods.size - b.module.methods.size - first.length = 0 := by omega
    rw [methodEntries_append, List.take_append, length_methodEntries, hnone, List.take_zero,
      List.append_nil]

lemma gained_append (hopen : b'.openType = b.openType)
    (hmethods : b'.module.methods.size = b.module.methods.size + first.length)
    (hparams : b'.module.params.size = b.module.params.size + first.flatten.length)
    (hgrows : b'.module.methods.size ≤ b''.module.methods.size) :
    b.gained b'' (first ++ rest) = b.gained b' first ++ b'.gained b'' rest := by
  unfold gained
  rw [hopen]
  cases b.openType with
  | none => rfl
  | some owner =>
    have hrow : b.module.methods.size + 1 + first.length = b'.module.methods.size + 1 := by omega
    have hparam : b.module.params.size + 1 + first.flatten.length = b'.module.params.size + 1 := by omega
    have hrest : b''.module.methods.size - b.module.methods.size - first.length =
        b''.module.methods.size - b'.module.methods.size := by omega
    have hlength :=
      length_methodEntries owner (b.module.methods.size + 1) (b.module.params.size + 1) first
    have hwhole : ∀ count, first.length ≤ count →
        (methodEntries owner (b.module.methods.size + 1) (b.module.params.size + 1) first).take count =
          methodEntries owner (b.module.methods.size + 1) (b.module.params.size + 1) first :=
      fun count hcount => List.take_of_length_le (by omega)
    dsimp only
    rw [methodEntries_append, List.take_append, hlength, hrow, hparam, hrest]
    rw [hwhole _ (by omega), hwhole _ (by omega)]

/-- On the way from one builder to another the first methods with these parameters were added
to the open type, and all of them if there is an answer. -/
structure Recorded (b : Builder) (lists : List (List String)) (ran : Except Malformed α × Builder) :
    Prop where
  ledger : ∀ {methods properties}, b.Ledger methods properties →
    ran.2.Ledger (methods ++ b.gained ran.2 lists) properties
  openType : ran.2.openType = b.openType
  properties : ran.2.module.properties = b.module.properties
  grows : b.module.methods.size ≤ ran.2.module.methods.size
  bounded : ran.2.module.methods.size ≤ b.module.methods.size + lists.length
  whole : ∀ x, ran.1 = .ok x →
    ran.2.module.methods.size = b.module.methods.size + lists.length ∧
      ran.2.module.params.size = b.module.params.size + lists.flatten.length

/-- A step that adds methods with these parameters to the open type. -/
def Records (step : Build α) (lists : List (List String)) : Prop := ∀ b, Recorded b lists (run step b)

lemma StaysAside.records (h : StaysAside step) : Records step [] := by
  intro b
  have haside := h b
  have hmethods : (run step b).2.module.methods.size = b.module.methods.size := by rw [haside.methods]
  have hparams : (run step b).2.module.params.size = b.module.params.size := by rw [haside.params]
  refine ⟨?_, haside.openType, haside.properties, ?_, ?_, fun _ _ => ⟨hmethods, hparams⟩⟩
  · intro methods properties hledger
    rw [gained_nil, List.append_nil]
    exact hledger.aside haside
  · exact Nat.le_of_eq hmethods.symm
  · exact Nat.le_of_eq hmethods

lemma Records.map (f : α → β) (h : Records step lists) : Records (f <$> step) lists := by
  intro b
  have hstep := h b
  rw [run_map]
  cases hrun : run step b with
  | mk result c =>
    rw [hrun] at hstep
    cases result with
    | ok x => exact { hstep with whole := fun _ _ => hstep.whole x rfl }
    | error cause => exact { hstep with whole := nofun }

lemma Records.bind {f : α → Build β} (hstep : Records step first) (hf : ∀ x, Records (f x) rest) :
    Records (step >>= f) (first ++ rest) := by
  intro b
  have hfirst := hstep b
  rw [run_bind]
  cases hrun : run step b with
  | mk result c =>
    rw [hrun] at hfirst
    have hbounded : c.module.methods.size ≤ b.module.methods.size + first.length := hfirst.bounded
    cases result with
    | error cause =>
      refine { hfirst with ledger := ?_, bounded := ?_, whole := nofun }
      · intro methods properties hledger
        rw [gained_append_left hbounded]
        exact hfirst.ledger hledger
      · rw [List.length_append]
        dsimp only
        omega
    | ok x =>
      have hsecond := hf x c
      obtain ⟨hmethods, hparams⟩ := hfirst.whole x rfl
      refine
        { openType := hsecond.openType.trans hfirst.openType
          properties := hsecond.properties.trans hfirst.properties
          grows := Nat.le_trans hfirst.grows hsecond.grows
          ledger := ?_, bounded := ?_, whole := ?_ }
      · intro methods properties hledger
        rw [gained_append hfirst.openType hmethods hparams hsecond.grows, ← List.append_assoc]
        exact hsecond.ledger (hfirst.ledger hledger)
      · have hbounded' := hsecond.bounded
        rw [List.length_append]
        dsimp only at hbounded' ⊢
        omega
      · intro y hy
        obtain ⟨hmethods', hparams'⟩ := hsecond.whole y hy
        rw [List.length_append, List.flatten_append, List.length_append]
        dsimp only at hmethods hparams hmethods' hparams' ⊢
        omega

lemma Recorded.failed (h : b.Aside b') (cause : Malformed) :
    Recorded (α := α) b lists (.error cause, b') := by
  have hmethods : b'.module.methods.size = b.module.methods.size := by rw [h.methods]
  refine ⟨?_, h.openType, h.properties, Nat.le_of_eq hmethods.symm, ?_, nofun⟩
  · intro methods properties hledger
    rw [gained_same h.methods, List.append_nil]
    exact hledger.aside h
  · dsimp only
    omega

lemma Recorded.added (hopen : b.openType = some owner) (flags : Nat) (name : String) (sigOffset : Nat)
    (blobs : BlobHeap) (names : List String) (x : α) :
    Recorded b [names] (.ok x, (b.withMethod flags name sigOffset blobs).withParams 1 names) := by
  obtain ⟨strings, params, hparams, heq⟩ := (b.withMethod flags name sigOffset blobs).withParams_eq 1 names
  have hparams : params.size = b.module.params.size + names.length := hparams
  have hmethods : ((b.withMethod flags name sigOffset blobs).withParams 1 names).module.methods.size =
      b.module.methods.size + 1 := by
    rw [heq]
    exact Array.size_push _
  have hgained : b.gained ((b.withMethod flags name sigOffset blobs).withParams 1 names) [names] =
      [⟨b.module.methods.size + 1, owner, b.module.params.size + 1, names⟩] := by
    simp [gained, hopen, hmethods, methodEntries]
  refine ⟨?_, ?_, ?_, ?_, ?_, fun _ _ => ⟨hmethods, ?_⟩⟩
  · intro methods properties hledger
    rw [hgained]
    exact hledger.withMethod hopen flags name sigOffset blobs names
  · rw [heq]
    rfl
  · rw [heq]
    rfl
  · dsimp only
    omega
  · exact Nat.le_of_eq hmethods
  · rw [heq]
    simpa using hparams

/-- Adding a method gives it a row, or none if the call fails. -/
lemma addMethod_records (flags : Nat) (name : String) (sig : MethodSig) (names : List String) :
    Records (addMethod flags name sig names) [names] := by
  intro b
  rw [run_addMethod]
  cases hopen : b.openType with
  | none => exact .failed (.refl b) _
  | some owner =>
    cases sig.write with
    | error cause => exact .failed (.refl b) _
    | ok blob =>
      dsimp only
      cases b.module.blobs.push blob with
      | error cause => exact .failed (.interned b name) _
      | ok pushed =>
        obtain ⟨offset, blobs⟩ := pushed
        exact .added hopen flags name offset blobs names _

lemma addAccessor_records (isThere reads : Bool) (name : String) (sig : MethodSig) (names : List String)
    (property : Nat) : Records (addAccessor isThere reads name sig names property)
      (if isThere then [names] else []) := by
  cases isThere with
  | false => exact (aside_judges.pure ()).records
  | true =>
    refine (addMethod_records _ name sig names).bind fun method => ?_
    exact (aside_judges.edit (by decide) (.accessor _)).records

lemma addAccessors_records (name : String) (type : SigType) (getter setter : Bool) (property : Nat) :
    Records (addAccessors name type getter setter property)
      (BuildCall.addProperty name type getter setter).paramNames := by
  refine (addAccessor_records getter true _ _ [] property).bind fun _ => ?_
  rw [← List.append_nil (if setter then _ else _)]
  exact (addAccessor_records setter false _ _ ["value"] property).bind fun _ => (aside_judges.pure _).records

end Recording

section Calls

variable {α β : Type} {b b' : Builder} {methods : List MethodEntry} {properties : List PropertyEntry}
  {lists : List (List String)} {count : Nat} {ran : Except Malformed α × Builder}

/-- The properties that got a row on the way from one builder to another. -/
def gainedProperties (b b' : Builder) : List PropertyEntry :=
  match b.openType with
  | none => []
  | some owner =>
    (List.range' (b.module.properties.size + 1)
      (b'.module.properties.size - b.module.properties.size)).map (⟨·, owner⟩)

lemma gainedProperties_same (h : b'.module.properties = b.module.properties) :
    b.gainedProperties b' = [] := by
  unfold gainedProperties
  split
  · rfl
  · simp [h]

lemma gainedProperties_one (hopen : b.openType = some owner)
    (h : b'.module.properties.size = b.module.properties.size + 1) :
    b.gainedProperties b' = [⟨b.module.properties.size + 1, owner⟩] := by
  simp [gainedProperties, hopen, h]

/-- What was added on the way from one builder to another can be noted, and if there is an answer
it is all that was to be added. -/
structure Noted (b : Builder) (lists : List (List String)) (count : Nat)
    (ran : Except Malformed α × Builder) : Prop where
  ledger : ∀ {methods properties}, b.Ledger methods properties →
    ran.2.Ledger (methods ++ b.gained ran.2 lists) (properties ++ b.gainedProperties ran.2)
  methods : ∀ x, ran.1 = .ok x → ran.2.module.methods.size = b.module.methods.size + lists.length
  properties : ∀ x, ran.1 = .ok x → ran.2.module.properties.size = b.module.properties.size + count

lemma Recorded.noted (h : Recorded b lists ran) :
    Noted b lists 0 ran where
  ledger := by
    intro methods properties hledger
    rw [gainedProperties_same h.properties, List.append_nil]
    exact h.ledger hledger
  methods x hx := (h.whole x hx).1
  properties _ _ := by rw [h.properties, Nat.add_zero]

lemma Noted.nothing
    (hledger : ∀ {methods properties}, b.Ledger methods properties → ran.2.Ledger methods properties)
    (hmethods : ran.2.module.methods = b.module.methods) (hproperties : ran.2.module.properties = b.module.properties)
    (hadds : ∀ x, ran.1 = .ok x → lists = [] ∧ count = 0) : Noted b lists count ran where
  ledger := by
    intro methods properties h
    rw [gained_same hmethods, gainedProperties_same hproperties, List.append_nil, List.append_nil]
    exact hledger h
  methods x hx := by rw [hmethods, (hadds x hx).1, List.length_nil, Nat.add_zero]
  properties x hx := by rw [hproperties, (hadds x hx).2, Nat.add_zero]

lemma Noted.map (f : α → β) (h : Noted b lists count ran) : Noted b lists count (ran.1.map f, ran.2) := by
  obtain ⟨result, c⟩ := ran
  cases result with
  | ok x => exact ⟨h.ledger, fun _ _ => h.methods x rfl, fun _ _ => h.properties x rfl⟩
  | error cause => exact ⟨h.ledger, nofun, nofun⟩

lemma defineType_noted (flags : Nat) (ns name : String) (base : Option Token) (b : Builder) :
    Noted b [] 0 (run (defineType flags ns name base) b) := by
  rw [run_defineType]
  apply Noted.nothing
  · intro methods properties h
    exact ((h.aside (.interned b name)).aside (.interned _ ns)).pushTypeDef rfl
  · rfl
  · rfl
  · exact fun _ _ => ⟨rfl, rfl⟩

lemma setBase_noted (type : Nat) (base : Token) (b : Builder) :
    Noted b [] 0 (run (setBase type base) b) := by
  rw [run_setBase]
  split
  · exact .nothing id rfl rfl nofun
  · exact .nothing (fun h => h.withBase type base) rfl rfl fun _ _ => ⟨rfl, rfl⟩

/-- A property that is refused leaves no more than an empty list. -/
lemma addProperty_noted (name : String) (type : SigType) (getter setter : Bool) (b : Builder) :
    Noted b (BuildCall.addProperty name type getter setter).paramNames 1
      (run (addProperty name type getter setter) b) := by
  rw [run_addProperty]
  cases hopen : b.openType with
  | none => exact .nothing id rfl rfl nofun
  | some owner =>
    have hlist : ∀ {methods properties}, b.Ledger methods properties →
        (b.withList owner).Ledger methods properties := fun h => h.withList hopen
    have hback := b.back_withList owner
    obtain ⟨maps, hmaps⟩ := b.withList_eq owner
    rw [hmaps] at hlist hback
    dsimp only
    rw [hmaps]
    cases PropertySig.write ⟨true, type, []⟩ with
    | error cause => exact .nothing hlist rfl rfl nofun
    | ok blob =>
      dsimp only
      cases (b.withMaps maps).module.blobs.push blob with
      | error cause => exact .nothing (fun h => (hlist h).aside (.interned _ name)) rfl rfl nofun
      | ok pushed =>
        obtain ⟨offset, blobs⟩ := pushed
        have haccessors := addAccessors_records name type getter setter
          ((b.withMaps maps).module.properties.size + 1)
          ((b.withMaps maps).withProperty name offset blobs)
        have hcount : ((b.withMaps maps).withProperty name offset blobs).module.properties.size =
            b.module.properties.size + 1 := Array.size_push _
        rw [← haccessors.properties] at hcount
        refine ⟨?_, fun x hx => (haccessors.whole x hx).1, fun _ _ => hcount⟩
        intro methods properties h
        rw [gainedProperties_one hopen hcount]
        exact haccessors.ledger ((hlist h).withProperty hopen hback name offset blobs)

/-- Every call adds what it is to add, or fails. -/
lemma step_noted (call : BuildCall) (b : Builder) :
    Noted b call.paramNames call.propertyCount (run call.step b) := by
  cases call with
  | assemblyReference | typeReference | externalType | typeSpecification | addInterface | addConstraint
  | memberReference | addAttribute | openType =>
    exact ((aside_judges.step (by simp [BuildCall.parts, Part.beside])).records b).noted
  | addGenericParam owner name => exact ((addGenericParam_staysAside owner name).records.map _ b).noted
  | defineType flags ns name base =>
    rw [BuildCall.step, run_map]
    exact (defineType_noted flags ns name base b).map _
  | setBase type base =>
    rw [BuildCall.step, run_map]
    exact (setBase_noted type base b).map _
  | addMethod flags name sig names => exact ((addMethod_records flags name sig names).map _ b).noted
  | addConstructor params names => exact ((addMethod_records _ _ _ names).map _ b).noted
  | addProperty name type getter setter =>
    rw [BuildCall.step, run_map]
    exact (addProperty_noted name type getter setter b).map _

lemma rowsAdded_eq (call : BuildCall) (rows : Module → Nat)
    (h : ∀ reply, b.reply call = .ok reply → rows (b.after call).module = rows b.module + count) :
    b.rowsAdded call count rows = rows (b.after call).module - rows b.module := by
  unfold rowsAdded
  split
  · rename_i reply hreply
    rw [h reply hreply]
    omega
  · rfl

/-- What a call adds belongs to the type that was open. -/
lemma Ledger.after (h : b.Ledger methods properties) (call : BuildCall) :
    (b.after call).Ledger (methods ++ b.methodsAdded call) (properties ++ b.propertiesAdded call) := by
  have hnoted := step_noted call b
  have hmethods : b.methodsAdded call = b.gained (b.after call) call.paramNames := by
    rw [methodsAdded, rowsAdded_eq call (·.methods.size) hnoted.methods]
    rfl
  have hproperties : b.propertiesAdded call = b.gainedProperties (b.after call) := by
    rw [propertiesAdded, rowsAdded_eq call (·.properties.size) hnoted.properties]
    rfl
  rw [hmethods, hproperties]
  exact hnoted.ledger h

/-- What calls add belongs to the types that were open. -/
lemma Ledger.afterAll (h : b.Ledger methods properties) (calls : List BuildCall) :
    (b.afterAll calls).Ledger (methods ++ b.methodJournal calls)
      (properties ++ b.propertyJournal calls) := by
  induction calls generalizing b methods properties with
  | nil => simpa [Builder.afterAll, methodJournal, propertyJournal] using h
  | cons call calls ih =>
    have hrest := ih (h.after call)
    rw [List.append_assoc, List.append_assoc] at hrest
    exact hrest

end Calls

section Owners

variable {b : Builder} {methods : List MethodEntry} {properties : List PropertyEntry} {entry : MethodEntry}

section

variable (h : b.Ledger methods properties) (hmem : entry ∈ methods)

include h hmem

/-- A method is among those of one type only. -/
lemma Ledger.mem_methodRows (type : Nat) :
    entry.row ∈ methodRows type methods ↔ type = entry.owner := by
  have hnodup : (methods.map (·.row)).Nodup := by
    rw [h.methodsListed]
    exact List.nodup_range'
  constructor
  · intro hrow
    obtain ⟨other, hother, heq⟩ := List.mem_map.mp hrow
    obtain ⟨hother, howner⟩ := List.mem_filter.mp hother
    obtain rfl := List.inj_on_of_nodup_map hnodup hother hmem heq
    exact (beq_iff_eq.mp howner).symm
  · rintro rfl
    exact List.mem_map_of_mem (List.mem_filter.mpr ⟨hmem, beq_self_eq_true _⟩)

lemma Ledger.mem_methodsOf {type : Nat}
    {rows : List Nat} (hrows : b.module.methodsOf type = .ok rows) :
    entry.row ∈ rows ↔ type = entry.owner := by
  obtain ⟨found, hfound, -⟩ := bind_eq_ok hrows
  obtain ⟨hpos, hle⟩ := Module.row_le_size hfound
  rw [h.methodsOf type hpos hle, Except.ok.injEq] at hrows
  rw [← hrows]
  exact h.mem_methodRows hmem type

lemma Ledger.declaringTypeOf : b.module.declaringTypeOf entry.row = some entry.owner := by
  have howner := h.owners entry hmem
  have hrows := h.methodsOf entry.owner howner.1 howner.2
  have hdeclares := (h.mem_methodsOf hmem hrows).mpr rfl
  unfold Module.declaringTypeOf
  cases hfind : b.module.typeDefRows.find? _ with
  | none =>
    have hnone := List.find?_eq_none.mp hfind entry.owner (Module.mem_typeDefRows.mpr howner)
    rw [hrows] at hnone
    exact absurd (List.contains_iff_mem.mpr hdeclares) hnone
  | some type =>
    have htype := List.find?_some hfind
    split at htype
    · rename_i found hfound
      rw [(h.mem_methodsOf hmem hfound).mp (List.contains_iff_mem.mp htype)]
    · cases htype

end

lemma mem_methodEntries {row param : Nat} {lists : List (List String)}
    (hmem : entry ∈ methodEntries owner row param lists) : entry.names ∈ lists := by
  induction lists generalizing row param with
  | nil => cases hmem
  | cons names lists ih =>
    rcases List.mem_cons.mp hmem with rfl | hrest
    · exact List.mem_cons_self
    · exact List.mem_cons_of_mem names (ih hrest)

lemma mem_methodJournal {calls : List BuildCall} (hmem : entry ∈ b.methodJournal calls) :
    ∃ call ∈ calls, entry.names ∈ call.paramNames := by
  induction calls generalizing b with
  | nil => cases hmem
  | cons call calls ih =>
    rcases List.mem_append.mp hmem with hadded | hrest
    · refine ⟨call, List.mem_cons_self, ?_⟩
      unfold methodsAdded at hadded
      split at hadded
      · cases hadded
      · exact mem_methodEntries (List.mem_of_mem_take hadded)
    · obtain ⟨other, hother, hnames⟩ := ih hrest
      exact ⟨other, List.mem_cons_of_mem call hother, hnames⟩

/-- After any calls, methods and properties belong to the types that were open when they were
added, each method to one type, and to each method belong the rows of its own parameters. -/
theorem rows_belong_to_open_type (assembly : String) (calls : List BuildCall)
    (hnames : ∀ call ∈ calls, ∀ names ∈ call.paramNames, names.length ≤ 0xffff) :
    let m := ((ofAssembly assembly).afterAll calls).module
    let methods := (ofAssembly assembly).methodJournal calls
    let properties := (ofAssembly assembly).propertyJournal calls
    methods.map (·.row) = List.range' 1 m.methods.size ∧
      properties.map (·.row) = List.range' 1 m.properties.size ∧
      (∀ type ∈ m.typeDefRows, m.methodsOf type = .ok (methodRows type methods) ∧
        m.propertiesOf type = propertyRows type properties) ∧
      ∀ entry ∈ methods,
        entry.owner ∈ m.typeDefRows ∧ m.declaringTypeOf entry.row = some entry.owner ∧
        (∀ type rows, m.methodsOf type = .ok rows → (entry.row ∈ rows ↔ type = entry.owner)) ∧
        m.paramsOf entry.row = .ok (List.range' entry.firstParam entry.names.length) ∧
        ∀ i name, entry.names[i]? = some name → ∃ found, m.param (entry.firstParam + i) = .ok found ∧
          found.sequence = i + 1 ∧ m.strings.get found.name = .ok (Text.untilZero name) := by
  intro m methods properties
  have h : ((ofAssembly assembly).afterAll calls).Ledger methods properties :=
    (Ledger.initial assembly).afterAll calls
  refine ⟨h.methodsListed, h.propertiesListed, ?_, ?_⟩
  · intro type htype
    obtain ⟨hpos, hle⟩ := Module.mem_typeDefRows.mp htype
    exact ⟨h.methodsOf type hpos hle, h.propertiesOf type⟩
  · intro entry hmem
    have howner := Module.mem_typeDefRows.mpr (h.owners entry hmem)
    refine ⟨howner, h.declaringTypeOf hmem, ?_, h.paramsOf entry hmem, ?_⟩
    · exact fun type rows hrows => h.mem_methodsOf hmem hrows
    · intro i name hname
      obtain ⟨call, hcall, hlisted⟩ := mem_methodJournal hmem
      have hlength := hnames call hcall entry.names hlisted
      have hlt : i < entry.names.length := (List.getElem?_eq_some_iff.mp hname).1
      obtain ⟨found, hfound, hsequence, htext⟩ := (h.named entry hmem).get hname
      refine ⟨found, hfound, ?_, htext⟩
      rw [hsequence, Nat.mod_eq_of_lt (by omega)]
      omega

/-- A method without a type and a property without an encoding are not there; of the second type
are two accessors and a constructor. -/
theorem rows_belong_to_open_type_sample :
    let calls : List BuildCall :=
      [.addMethod 0 "Lost" (instanceSig (.builtin .void) []) [],
        .defineType 0 "Shop" "Item" none, .addProperty "Price" (.builtin .decimal) true true,
        .defineType 0 "Shop" "Box" none, .addProperty "Size" (.builtin .int) true true,
        .addConstructor [.builtin .int] ["size"]]
    let m := ((ofAssembly "Shop").afterAll calls).module
    (∀ call ∈ calls, ∀ names ∈ call.paramNames, names.length ≤ 0xffff) ∧
      m.methodsOf 1 = .ok [] ∧ m.propertiesOf 1 = [] ∧
      m.methodsOf 2 = .ok [1, 2, 3] ∧ m.propertiesOf 2 = [1] ∧
      m.declaringTypeOf 3 = some 2 ∧ m.paramsOf 3 = .ok [2] := by
  intro calls m
  have hnames : ∀ call ∈ calls, ∀ names ∈ call.paramNames, names.length ≤ 0xffff := by decide
  have hmethods : (ofAssembly "Shop").methodJournal calls =
      [⟨1, 2, 1, []⟩, ⟨2, 2, 1, ["value"]⟩, ⟨3, 2, 2, ["size"]⟩] := by decide +kernel
  have hproperties : (ofAssembly "Shop").propertyJournal calls = [⟨1, 2⟩] := by decide +kernel
  have htypes : m.typeDefRows = [1, 2] := by decide +kernel
  obtain ⟨-, -, hlists, hentries⟩ := rows_belong_to_open_type "Shop" calls hnames
  rw [hmethods, hproperties] at hlists
  rw [hmethods] at hentries
  obtain ⟨hmethods₁, hproperties₁⟩ := hlists 1 (by rw [htypes]; decide)
  obtain ⟨hmethods₂, hproperties₂⟩ := hlists 2 (by rw [htypes]; decide)
  obtain ⟨-, hdeclaring, -, hparams, -⟩ := hentries ⟨3, 2, 2, ["size"]⟩ (by decide)
  exact ⟨hnames, hmethods₁, hproperties₁, hmethods₂, hproperties₂, hdeclaring, hparams⟩

end Owners

end Builder

end TypeAtlas.Metadata
