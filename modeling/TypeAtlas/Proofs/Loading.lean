import TypeAtlas.Proofs.Publication

/-!
One load as a step, and the public calls. A load marks its declaration, finds out the shape
and publishes it with its references; if that fails, it is rolled back. A call
keeps a property when registration, new libraries, side data and loads keep it.
-/

namespace TypeAtlas

namespace Work

/-- A load of what is not loaded publishes the shape it finds out, or is rolled back. -/
lemma exec_loadWith_cases (fuel : Nat) (id : DeclId) (a : Atlas) :
    ((loadWith (fuel + 1) id).exec a = (.ok (), a) ∧ a.graph.Settles id) ∨
      ∃ d r b, a.graph.get? id = some d ∧ d.loaded = false ∧
        (shapeOf (followWith (loadWith fuel)) d).exec (a.flag id true) = (r, b) ∧
        b.graph.isLoaded id = true ∧
        ((∃ shape, r = .ok shape ∧
            (loadWith (fuel + 1) id).exec a = (.ok (), b.publish id (.onto d.kind d.shape shape))) ∨
          ∃ fault, r = .error fault ∧ (loadWith (fuel + 1) id).exec a = (.error fault, b.rollBack id)) := by
  by_cases hsettles : a.graph.Settles id
  · exact .inl ⟨exec_loadWith_of_settles hsettles fuel, hsettles⟩
  obtain ⟨d, hd, hunloaded⟩ : ∃ d, a.graph.get? id = some d ∧ d.loaded = false := by
    simpa [Graph.Settles] using hsettles
  obtain ⟨b, hb, hruns⟩ := exec_loadWith_of_overlooks (loadWith_overlooks fuel id) hd hunloaded
  rcases hruns with ⟨shape, hrun, hexec⟩ | ⟨fault, hrun, hexec⟩
  · exact .inr ⟨d, _, b, hd, hunloaded, hrun, hb, .inl ⟨shape, rfl, hexec⟩⟩
  · exact .inr ⟨d, _, b, hd, hunloaded, hrun, hb, .inr ⟨fault, rfl, hexec⟩⟩

lemma exec_loadWith (fuel : Nat) (id : DeclId) (a : Atlas) :
    (loadWith (fuel + 1) id).exec a =
      match a.graph.get? id with
      | none => (.ok (), a)
      | some d =>
        if d.loaded then (.ok (), a)
        else match (shapeOf (followWith (loadWith fuel)) d).exec (a.flag id true) with
          | (.ok shape, b) => (.ok (), b.publish id (.onto d.kind d.shape shape))
          | (.error fault, b) => (.error fault, b.rollBack id) := by
  rcases exec_loadWith_cases fuel id a with ⟨hexec, hsettles⟩ | ⟨d, r, b, hd, hunloaded, hrun, -, hruns⟩
  · rw [hexec]
    cases hd : a.graph.get? id with
    | none => rfl
    | some d => exact (if_pos (hsettles d hd)).symm
  · rw [hd]
    simp only [hunloaded, Bool.false_eq_true, if_false, hrun]
    rcases hruns with ⟨shape, rfl, hexec⟩ | ⟨fault, rfl, hexec⟩
    · exact hexec
    · exact hexec

lemma exec_load (id : DeclId) (a : Atlas) :
    (load id).exec a = (loadWith (a.capacity + 1) id).exec a := by
  rw [load, exec_bind, exec_get]

lemma exec_followWith (load : DeclId → Work Unit) (use : Use) (a : Atlas) :
    (∃ id, a.settings.loadPolicy = .onResolve ∧ use.target? = some id ∧
      (followWith load use).exec a = (load id).exec a) ∨
      ((a.settings.loadPolicy = .lazy ∨ use.target? = none) ∧
        (followWith load use).exec a = (.ok (), a)) := by
  rw [followWith, exec_bind, exec_get]
  dsimp only
  cases hpolicy : a.settings.loadPolicy with
  | lazy => exact .inr ⟨.inl rfl, rfl⟩
  | onResolve =>
    cases htarget : use.target? with
    | none => exact .inr ⟨.inr rfl, rfl⟩
    | some id => exact .inl ⟨id, rfl, rfl, rfl⟩

/-- Following a use depends on what loading does here and now. -/
lemma exec_followWith_congr {load load' : DeclId → Work Unit} {a : Atlas}
    (h : ∀ id, (load id).exec a = (load' id).exec a) (use : Use) :
    (followWith load use).exec a = (followWith load' use).exec a := by
  rw [followWith, followWith, exec_bind, exec_bind, exec_get]
  dsimp only
  split
  · exact h _
  · rfl

lemma exec_followWith_of_lazy {c : Atlas} (hlazy : c.settings.loadPolicy = .lazy) (load : DeclId → Work Unit)
    (use : Use) : (followWith load use).exec c = (.ok (), c) := by
  rcases exec_followWith load use c with ⟨_, honResolve, -, -⟩ | ⟨-, hrun⟩
  · rw [hlazy] at honResolve
    cases honResolve
  · exact hrun

lemma exec_follow_of_lazy {c : Atlas} (hlazy : c.settings.loadPolicy = .lazy) (use : Use) :
    (follow use).exec c = (.ok (), c) :=
  exec_followWith_of_lazy hlazy load use

variable {P : Atlas → Prop}

lemma followWith_keeps {load : DeclId → Work Unit} (hload : ∀ id, Keeps P (load id)) (use : Use) :
    Keeps P (followWith load use) := by
  intro a ha
  rcases exec_followWith load use a with ⟨id, -, -, hrun⟩ | ⟨-, hrun⟩
  · rw [hrun]
    exact hload id a ha
  · rwa [hrun]

lemma define_keeps_of_made (library : Library) (row : Nat)
    (hregister : ∀ d, Declaration.ofDefinition none library row = .ok d → Keeps P (register d)) :
    Keeps P (define library row) := by
  intro a ha
  rcases exec_define_cases library row a with ⟨r, hrun⟩ | ⟨d, hd, hrun⟩
  · rwa [hrun]
  · rw [hrun]
    exact hregister d hd a ha

lemma define_keeps (hregister : ∀ d : Declaration, d.Fresh → Keeps P (register d))
    (library : Library) (row : Nat) : Keeps P (define library row) :=
  define_keeps_of_made library row fun d hd => hregister d (Declaration.fresh_ofDefinition hd)

lemma addDocument_keeps_of_made (document : Source.Document)
    (hregister : ∀ implicitUsings, ∀ placed ∈ document.declarations, ∀ d,
      Declaration.ofPlaced implicitUsings document placed = .ok d → Keeps P (register d)) :
    Keeps P (addDocument document) := by
  refine Keeps.mapM fun placed hplaced => Keeps.get.bind fun atlas => ?_
  intro a ha
  rw [exec_bind]
  cases hd : Declaration.ofPlaced atlas.settings.implicitUsings document placed with
  | error cause => exact ha
  | ok d => exact hregister _ placed hplaced d hd a ha

lemma addDocument_keeps
    (hregister : ∀ d : Declaration, d.Fresh → d.provenance = .source → Keeps P (register d))
    (document : Source.Document) : Keeps P (addDocument document) :=
  addDocument_keeps_of_made document fun _ _ _ d hd =>
    hregister d (Declaration.fresh_ofSource hd) (Declaration.provenance_ofSource hd)

/-- Attaching a value changes the data of one declaration, or nothing. -/
lemma setData_keeps {id : DeclId} {value : Datum}
    (hmodify : ∀ a d data, P a → a.graph.get? id = some d → d.data.insert value = some data →
      P { a with graph := a.graph.modify id ({ · with data := data }) }) :
    Keeps P (setData id value) := by
  intro a ha
  unfold setData
  simp only [exec_bind, exec_graph, Graph.setData]
  cases hd : a.graph.get? id with
  | none => exact ha
  | some d =>
    dsimp only
    cases hdata : d.data.insert value with
    | none => exact ha
    | some data => exact hmodify a d data ha hd hdata

lemma load_keeps {id : DeclId} (h : ∀ fuel, Keeps P (loadWith fuel id)) : Keeps P (load id) := by
  intro a ha
  rw [exec_load]
  exact h _ a ha

/-- Loading keeps what a run relates to its start, if the end of a load is so related to the
start of the load whenever it is to the moment its declaration was marked. -/
lemma loadWith_keeps_from {R : Atlas → Atlas → Prop} (hrefl : ∀ a, R a a)
    (htrans : ∀ {a b c}, R a b → R b c → R a c)
    (hdefine : ∀ a library row, Keeps (R a) (define library row))
    (hload : ∀ {b c id d}, b.graph.get? id = some d → d.loaded = false → R (b.flag id true) c →
      (∀ shape, R b (c.publish id shape)) ∧ R b (c.rollBack id))
    (a : Atlas) (fuel : Nat) (id : DeclId) : Keeps (R a) (loadWith fuel id) := by
  induction fuel generalizing a id with
  | zero => exact Keeps.throw _
  | succ fuel ih =>
    intro b hb
    rcases exec_loadWith_cases fuel id b with ⟨hexec, -⟩ | ⟨d, r, c, hd, hunloaded, hrun, -, hruns⟩
    · rwa [hexec]
    have hwork := shapeOf_keeps (hdefine (b.flag id true))
      (followWith_keeps fun other => ih (b.flag id true) other) d (b.flag id true) (hrefl _)
    rw [hrun] at hwork
    obtain ⟨hpublish, hrollBack⟩ := hload hd hunloaded hwork
    rcases hruns with ⟨shape, -, hexec⟩ | ⟨fault, -, hexec⟩ <;> rw [hexec]
    · exact htrans hb (hpublish _)
    · exact htrans hb hrollBack

/-- Loading keeps what registration, marks, rollbacks and publication keep. -/
lemma loadWith_keeps (hdefine : ∀ library row, Keeps P (define library row))
    (hflag : ∀ a id, P a → P (a.flag id true)) (hrollBack : ∀ a id, P a → P (a.rollBack id))
    (hpublish : ∀ a id shape, P a → P (a.publish id shape)) (fuel : Nat) (id : DeclId) :
    Keeps P (loadWith fuel id) := by
  intro a ha
  refine loadWith_keeps_from (R := fun a b => P a → P b) (fun _ h => h) (fun h h' ha => h' (h ha)) ?_ ?_
    a fuel id a (fun h => h) ha
  · exact fun a library row b hb ha => hdefine library row b (hb ha)
  · intro b c id d _ _ h
    exact ⟨fun shape hb => hpublish c id shape (h (hflag b id hb)),
      fun hb => hrollBack c id (h (hflag b id hb))⟩

lemma deepLoadWith_keeps (hload : ∀ id, Keeps P (load id)) (budget : Option Nat) (fuel : Nat)
    (visited : List DeclId) (queue : List (DeclId × Nat)) :
    Keeps P (deepLoadWith budget fuel visited queue) := by
  induction fuel generalizing visited queue with
  | zero =>
    rw [deepLoadWith]
    split
    · exact Keeps.pure _
    · exact Keeps.throw _
  | succ fuel ih =>
    rw [deepLoadWith]
    split
    · exact Keeps.pure _
    · exact (hload _).bind fun _ => Keeps.graph.bind fun g => ih _ _

end Work

/-- The calls that work on an atlas from outside. -/
inductive Call where
  | addDocument (document : Source.Document)
  | addLibrary (library : Library)
  | importLibrary (library : Library)
  | load (id : DeclId)
  | loadAll
  | deepLoad (root : DeclId)
  | resolve (scope : Scope) (ref : TypeRef)
  | resolveAttribute (scope : Scope) (ref : TypeRef)
  | resolveType (type : RuntimeType)
  | setData (id : DeclId) (value : Datum)

def Call.work : Call → Work Unit
  | addDocument document => do let _ ← Work.addDocument document
  | addLibrary library => Work.addLibrary library
  | importLibrary library => do let _ ← Work.importLibrary library
  | load id => Work.load id
  | loadAll => Work.loadAll
  | deepLoad root => do let _ ← Work.deepLoad root
  | resolve scope ref => do let _ ← Work.resolve scope ref
  | resolveAttribute scope ref => do let _ ← Work.resolveAttribute scope ref
  | resolveType type => do let _ ← Work.resolveType type
  | setData id value => Work.setData id value

/-- The atlas after a call, whether it succeeds or fails. -/
def Atlas.after (a : Atlas) (call : Call) : Atlas := (call.work.exec a).2

def Atlas.afterAll (a : Atlas) (calls : List Call) : Atlas := calls.foldl Atlas.after a

/-- A call keeps what its basic steps keep, where declarations are registered as they are made. -/
lemma Call.keeps_of_made {P : Atlas → Prop} (call : Call)
    (hplaced : ∀ document, call = .addDocument document → ∀ implicitUsings, ∀ placed ∈ document.declarations, ∀ d,
      Declaration.ofPlaced implicitUsings document placed = .ok d → Work.Keeps P (Work.register d))
    (hdefinition : ∀ library row d, Declaration.ofDefinition none library row = .ok d → Work.Keeps P (Work.register d))
    (hlibrary : ∀ library, Work.Keeps P (Work.addLibrary library))
    (hdata : ∀ id value, Work.Keeps P (Work.setData id value))
    (hload : ∀ id, Work.Keeps P (Work.load id)) : Work.Keeps P call.work := by
  have hdefine : ∀ library row, Work.Keeps P (Work.define library row) := fun library row =>
    Work.define_keeps_of_made library row (hdefinition library row)
  have hfollow := Work.followWith_keeps hload
  cases call with
  | addDocument document =>
    refine Work.Keeps.bind ?_ fun _ => .pure _
    exact Work.addDocument_keeps_of_made document (hplaced document rfl)
  | addLibrary library => exact hlibrary library
  | importLibrary library =>
    refine Work.Keeps.bind ?_ fun _ => .pure _
    exact (hlibrary library).bind fun _ => .mapM fun row _ => hdefine library row
  | load id => exact hload id
  | loadAll => exact Work.Keeps.graph.bind fun g => .forM fun id _ => hload id
  | deepLoad root =>
    refine Work.Keeps.bind ?_ fun _ => .pure _
    exact Work.Keeps.get.bind fun atlas => Work.deepLoadWith_keeps hload _ _ _ _
  | resolve scope ref =>
    exact (Work.resolveFinding_keeps hdefine hfollow scope ref).bind fun _ => .pure _
  | resolveAttribute scope ref =>
    exact (Work.resolveAttributeFinding_keeps hdefine hfollow scope ref).bind fun _ => .pure _
  | resolveType type =>
    exact (Work.runtimeFinding_keeps hdefine hfollow type).bind fun _ => .pure _
  | setData id value => exact hdata id value

lemma Call.keeps {P : Atlas → Prop}
    (hregister : ∀ d : Declaration, d.Fresh → Work.Keeps P (Work.register d))
    (hlibrary : ∀ library, Work.Keeps P (Work.addLibrary library))
    (hdata : ∀ id value, Work.Keeps P (Work.setData id value))
    (hload : ∀ id, Work.Keeps P (Work.load id)) (call : Call) : Work.Keeps P call.work :=
  call.keeps_of_made (fun _ _ _ _ _ d hd => hregister d (Declaration.fresh_ofSource hd))
    (fun _ _ d hd => hregister d (Declaration.fresh_ofDefinition hd)) hlibrary hdata hload

lemma Atlas.afterAll_induction {P : Atlas → Prop} {calls : List Call}
    (hcall : ∀ call ∈ calls, Work.Keeps P call.work) {a : Atlas} (ha : P a) :
    P (a.afterAll calls) := by
  induction calls generalizing a with
  | nil => exact ha
  | cons call calls ih =>
    have hfirst : P (a.after call) := hcall call List.mem_cons_self a ha
    exact ih (List.forall_mem_cons.mp hcall).2 hfirst

/-- What holds of declarations as they are made, and does not depend on their data, marks and shapes, holds of all
declarations after any calls. -/
lemma Atlas.afterAll_made {P : Declaration → Prop} {settings : Settings} {calls : List Call}
    (hplaced : ∀ document, .addDocument document ∈ calls → ∀ implicitUsings, ∀ placed ∈ document.declarations, ∀ d,
      Declaration.ofPlaced implicitUsings document placed = .ok d → P d)
    (hdefinition : ∀ library row d, Declaration.ofDefinition none library row = .ok d → P d)
    (hheader : ∀ d e : Declaration, P d → e = { d with data := e.data, loaded := e.loaded, shape := e.shape } → P e) :
    ∀ id d, (({ settings } : Atlas).afterAll calls).graph.get? id = some d → P d := by
  let Q (a : Atlas) : Prop := ∀ id d, a.graph.get? id = some d → P d
  have hregister {d : Declaration} (hd : P d) : Work.Keeps Q (Work.register d) := by
    intro a ha id e he
    rcases Graph.get?_add_eq_some he with hold | ⟨-, rfl, -, -⟩
    · exact ha id e hold
    · exact hd
  have hmodify {a : Atlas} (ha : Q a) (id : DeclId) {f : Declaration → Declaration}
      (hf : ∀ d, f d = { d with data := (f d).data, loaded := (f d).loaded, shape := (f d).shape }) :
      Q { a with graph := a.graph.modify id f } := by
    intro other e he
    rw [Graph.get?_modify] at he
    split at he
    · obtain ⟨d, hd, rfl⟩ := Option.map_eq_some_iff.mp he
      exact hheader d _ (ha other d hd) (hf d)
    · exact ha other e he
  refine Atlas.afterAll_induction (P := Q) (fun call hcall => ?_) fun id d hd => ?_
  · have hdefine : ∀ library row d, Declaration.ofDefinition none library row = .ok d →
        Work.Keeps Q (Work.register d) := fun library row d hd => hregister (hdefinition library row d hd)
    refine call.keeps_of_made ?_ hdefine (fun _ _ ha => ha) ?_ fun id => Work.load_keeps fun fuel => ?_
    · rintro document rfl implicitUsings placed hmem d hd
      exact hregister (hplaced document hcall implicitUsings placed hmem d hd)
    · exact fun id value => Work.setData_keeps fun a d data ha _ _ => hmodify ha id fun _ => rfl
    · refine Work.loadWith_keeps (fun library row => Work.define_keeps_of_made library row (hdefine library row))
        (fun a other ha => hmodify ha other fun _ => rfl) (fun a other ha => hmodify ha other fun _ => rfl)
        (fun a other shape ha => ?_) fuel id
      have hshape := hmodify ha other (f := ({ · with shape := shape })) fun _ => rfl
      exact fun target e he => hshape target e ((Graph.get?_recordReferences _ other target).symm.trans he)
  · cases (Array.getElem?_eq_some_iff.mp hd).1

lemma Atlas.settings_afterAll (settings : Settings) (calls : List Call) :
    (({ settings } : Atlas).afterAll calls).settings = settings := by
  refine Atlas.afterAll_induction (P := (·.settings = settings)) (fun call _ => ?_) rfl
  have hregister : ∀ d, Work.Keeps (·.settings = settings) (Work.register d) := fun _ _ ha => ha
  refine Call.keeps (fun d _ => hregister d) (fun _ _ ha => ha) ?_ ?_ call
  · exact fun id value => Work.setData_keeps fun _ _ _ ha _ _ => ha
  · intro id
    apply Work.load_keeps
    intro fuel
    exact Work.loadWith_keeps (Work.define_keeps fun d _ => hregister d) (fun _ _ ha => ha)
      (fun _ _ ha => ha) (fun _ _ _ ha => ha) fuel id

end TypeAtlas
