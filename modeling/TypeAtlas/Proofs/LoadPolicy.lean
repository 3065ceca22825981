import Mathlib.Data.Finset.Card
import Mathlib.Logic.Relation
import TypeAtlas.Proofs.Loading
import TypeAtlas.Proofs.References

/-!
Loading on demand and loading at once, where all declarations come from source. Main
statement: if each declaration loads alone, then loading one with everything it leads to
ends, succeeds and gives each declaration the shape it has when it is loaded alone, however
the declarations refer to each other.

A load that is under way meets other declarations through their headers only, and headers
never change. So the run that loads everything it meets goes in step with a run that loads
nothing, and each nested load takes one declaration off those that are still to be loaded.
-/

namespace TypeAtlas

variable {d : Declaration} {fuel : Nat}

def Declaration.header (d : Declaration) : Declaration := { d with loaded := false, shape := {} }

namespace Graph

/-- The graph without what loading found out. -/
def headers (g : Graph) : Graph :=
  { g with declarations := g.declarations.map Declaration.header, edges := [] }

lemma get?_headers (g : Graph) (id : DeclId) :
    g.headers.get? id = (g.get? id).map Declaration.header := by
  simp [get?, headers]

lemma headers_modify (g : Graph) (id : DeclId) {f : Declaration → Declaration}
    (hf : ∀ d, (f d).header = d.header) : (g.modify id f).headers = g.headers := by
  unfold headers modify
  congr 1
  ext i : 1
  · simp
  · simp only [Array.getElem_map, Array.getElem_modify]
    split
    · exact hf _
    · rfl

lemma headers_recordReferences (g : Graph) (id : DeclId) :
    (g.recordReferences id).headers = g.headers := by
  unfold recordReferences
  split <;> rfl

lemma lookup_headers (g : Graph) (fullName : String) (arity : Nat) (location : Option String) :
    g.headers.lookup fullName arity location = g.lookup fullName arity location := by
  have harity : g.headers.hasArity arity = g.hasArity arity := by
    funext id
    unfold hasArity
    rw [get?_headers]
    cases g.get? id <;> rfl
  unfold lookup
  rw [harity]
  rfl

lemma nameOf_headers (g : Graph) : g.headers.nameOf = g.nameOf := by
  funext id
  unfold nameOf
  rw [get?_headers]
  cases g.get? id <;> rfl

end Graph

namespace Atlas

variable {a : Atlas} {id other : DeclId}

lemma headers_flag (a : Atlas) (id : DeclId) (loaded : Bool) :
    (a.flag id loaded).graph.headers = a.graph.headers :=
  a.graph.headers_modify id (f := ({ · with loaded := loaded })) fun _ => rfl

lemma headers_publish (a : Atlas) (id : DeclId) (shape : Shape) :
    (a.publish id shape).graph.headers = a.graph.headers :=
  (Graph.headers_recordReferences _ id).trans
    (a.graph.headers_modify id (f := ({ · with shape := shape })) fun _ => rfl)

lemma settles_flag (h : a.graph.Settles other) : (a.flag id true).graph.Settles other := by
  intro d hd
  rw [get?_flag] at hd
  split at hd
  · obtain ⟨e, -, rfl⟩ := Option.map_eq_some_iff.mp hd
    rfl
  · exact h d hd

lemma settles_flag_self (a : Atlas) (id : DeclId) : (a.flag id true).graph.Settles id := by
  intro d hd
  rw [get?_flag, if_pos rfl] at hd
  obtain ⟨e, -, rfl⟩ := Option.map_eq_some_iff.mp hd
  rfl

lemma settles_publish (h : a.graph.Settles other) (shape : Shape) :
    (a.publish id shape).graph.Settles other := by
  intro d hd
  rw [get?_publish] at hd
  split at hd
  · obtain ⟨e, he, rfl⟩ := Option.map_eq_some_iff.mp hd
    exact h e he
  · exact h d hd

end Atlas

/-- Loading a declaration succeeds and gives it a shape. -/
def Atlas.LoadsTo (a : Atlas) (id : DeclId) (shape : Shape) : Prop :=
  ∃ b d, (Work.load id).exec a = (.ok (), b) ∧ b.graph.get? id = some d ∧ d.loaded = true ∧
    d.shape = shape

/-- The same atlas under another policy. -/
def Atlas.withPolicy (a : Atlas) (policy : LoadPolicy) : Atlas :=
  { a with settings := { a.settings with loadPolicy := policy } }

/-- An atlas between loads. The loads of `underway` have begun, and at most `pending` are still to
be loaded, which stand there as `fresh` tells. Whatever else is loaded has a shape that is wanted,
and what is `near` to that is loaded. -/
structure Atlas.Between (fresh : DeclId → Declaration → Prop) (want : DeclId → Shape → Prop)
    (near : Shape → List DeclId) (underway pending : Finset DeclId) (b : Atlas) : Prop where
  untouched : ∀ {id d}, b.graph.get? id = some d → d.loaded = false → fresh id d ∧ id ∈ pending
  done : ∀ {id d}, b.graph.get? id = some d → d.loaded = true → id ∉ underway →
    want id d.shape ∧ ∀ target ∈ near d.shape, b.graph.Settles target

namespace Atlas.Between

variable {fresh : DeclId → Declaration → Prop} {want : DeclId → Shape → Prop} {near : Shape → List DeclId}
  {underway pending : Finset DeclId} {b : Atlas} {id : DeclId}

lemma flag (h : Between fresh want near underway pending b) (id : DeclId) :
    Between fresh want near (insert id underway) (pending.erase id) (b.flag id true) where
  untouched := by
    intro other d hd hunloaded
    rw [get?_flag] at hd
    split at hd
    · obtain ⟨e, -, rfl⟩ := Option.map_eq_some_iff.mp hd
      cases hunloaded
    · rename_i hne
      obtain ⟨hfresh, hmem⟩ := h.untouched hd hunloaded
      exact ⟨hfresh, Finset.mem_erase.mpr ⟨Ne.symm hne, hmem⟩⟩
  done := by
    intro other d hd hloaded hother
    have hne : id ≠ other := fun heq => hother (heq ▸ Finset.mem_insert_self id underway)
    rw [get?_flag, if_neg hne] at hd
    obtain ⟨hshape, hsettles⟩ := h.done hd hloaded fun hmem => hother (Finset.mem_insert_of_mem hmem)
    exact ⟨hshape, fun target hmem => settles_flag (hsettles target hmem)⟩

lemma publish (h : Between fresh want near (insert id underway) (pending.erase id) b)
    (hid : b.graph.Settles id) {shape : Shape} (hshape : want id shape)
    (hnear : ∀ target ∈ near shape, b.graph.Settles target) :
    Between fresh want near underway pending (b.publish id shape) where
  untouched := by
    intro other d hd hunloaded
    rw [get?_publish] at hd
    split at hd
    · rename_i heq
      obtain ⟨e, he, rfl⟩ := Option.map_eq_some_iff.mp hd
      have hloaded : e.loaded = true := hid e (heq ▸ he)
      rw [hloaded] at hunloaded
      cases hunloaded
    · exact (h.untouched hd hunloaded).imp_right Finset.mem_of_mem_erase
  done := by
    intro other d hd hloaded hother
    rw [get?_publish] at hd
    split at hd
    · rename_i heq
      obtain ⟨e, -, rfl⟩ := Option.map_eq_some_iff.mp hd
      exact ⟨heq ▸ hshape, fun target hmem => settles_publish (hnear target hmem) shape⟩
    · rename_i hne
      have hother' : other ∉ insert id underway := by
        rw [Finset.mem_insert, not_or]
        exact ⟨Ne.symm hne, hother⟩
      obtain ⟨hshape, hsettles⟩ := h.done hd hloaded hother'
      exact ⟨hshape, fun target hmem => settles_publish (hsettles target hmem) shape⟩

/-- A load that begins takes one off those that are pending. -/
lemma card_lt (h : Between fresh want near underway pending b) (hd : b.graph.get? id = some d)
    (hunloaded : d.loaded = false) (hfuel : pending.card < fuel + 1) : (pending.erase id).card < fuel := by
  have hpending := (h.untouched hd hunloaded).2
  rw [Finset.card_erase_of_mem hpending]
  have := Finset.card_pos.mpr ⟨id, hpending⟩
  omega

end Atlas.Between

/-- An atlas on its way from `a`, where following a use loads its declaration. What is loaded has
the shape it has when it is loaded in `a` alone, and all it refers to is loaded. -/
structure Atlas.Ahead (a : Atlas) (underway pending : Finset DeclId) (b : Atlas) : Prop
    extends b.Between (fun id d => a.graph.get? id = some d) a.LoadsTo (·.references.map (·.2)) underway pending where
  policy : b.settings.loadPolicy = .onResolve
  skips : b.settings.skipCompilerAttributes = a.settings.skipCompilerAttributes
  libraries : b.libraries = []
  headers : b.graph.headers = a.graph.headers

namespace Work

variable {b : Atlas}

/-- A run that loads what it meets beside a run that stays at `r` and loads nothing. -/
def Regime.ahead (a : Atlas) (underway pending : Finset DeclId) (r : Atlas) : Regime where
  inStep b b' := r = b' ∧ a.Ahead underway pending b
  known b use := ∀ target ∈ use.targets, b.graph.Settles target

variable {a r : Atlas} {underway pending : Finset DeclId}

lemma ahead_steady (hlibraries : r.libraries = []) (hheaders : r.graph.headers = a.graph.headers)
    (hskips : r.settings.skipCompilerAttributes = a.settings.skipCompilerAttributes) :
    (Regime.ahead a underway pending r).Steady fun _ => False where
  lookup := by
    rintro b _ ⟨rfl, hb⟩ fullName arity location
    rw [← Graph.lookup_headers, hb.headers, ← hheaders, Graph.lookup_headers]
  heldLookup := fun _ _ _ _ _ _ => trivial
  nameOf := by
    rintro b _ ⟨rfl, hb⟩
    rw [← Graph.nameOf_headers, hb.headers, ← hheaders, Graph.nameOf_headers]
  libraries := by
    rintro b _ ⟨rfl, hb⟩
    rw [hb.libraries, hlibraries]
  present := by
    rintro b _ ⟨rfl, hb⟩ library hmem
    rw [hb.libraries] at hmem
    cases hmem
  skips := by
    rintro b _ ⟨rfl, hb⟩
    rw [hb.skips, hskips]
  define := fun _ _ hnone => hnone.elim
  held := fun _ _ _ _ _ => trivial
  toInherits := .of_targets fun _ _ => .rfl

lemma exec_shapeOf_of_load {id : DeclId} (hd : a.graph.get? id = some d) (hunloaded : d.loaded = false)
    (hempty : d.shape = {}) (hload : (load id).exec a = (.ok (), b)) :
    ∃ shape c, (shapeOf (followWith (loadWith a.capacity)) d).exec (a.flag id true) = (.ok shape, c) ∧
      b = c.publish id shape := by
  rw [exec_load] at hload
  rcases exec_loadWith_cases a.capacity id a with ⟨-, hsettles⟩ | ⟨e, r, c, he, -, hrun, -, hruns⟩
  · cases hunloaded.symm.trans (hsettles d hd)
  cases hd.symm.trans he
  rw [hempty] at hruns
  simp only [Shape.onto_empty] at hruns
  obtain ⟨shape, rfl, hexec⟩ | ⟨_, -, hexec⟩ := hruns <;> cases hexec.symm.trans hload
  exact ⟨shape, c, hrun, rfl⟩

/-- Loads that succeed and leave their declaration loaded. -/
def GetsAhead (a : Atlas) (underway pending : Finset DeclId) (load : DeclId → Work Unit) : Prop :=
  ∀ id b, a.Ahead underway pending b → ∃ c, (load id).exec b = (.ok (), c) ∧
    a.Ahead underway pending c ∧ (∀ other, b.graph.Settles other → c.graph.Settles other) ∧
    c.graph.Settles id

/-- Following uses tracks not following them. -/
lemma ahead_followed {load load' : DeclId → Work Unit} (hlazy : r.settings.loadPolicy = .lazy)
    (hload : GetsAhead a underway pending load) :
    Followed (Regime.ahead a underway pending r) (followWith load) (followWith load') := by
  rintro use b _ ⟨rfl, hb⟩ ⟨-, hargs⟩
  have hstay := exec_followWith_of_lazy hlazy load' use
  rcases exec_followWith load use b with ⟨id, -, htarget, hrun⟩ | ⟨hnone, hrun⟩
  · obtain ⟨c, hexec, hc, hmono, hid⟩ := hload id b hb
    refine ⟨c, r, ⟨rfl, hc⟩, fun u hu target hmem => hmono target (hu target hmem), .inl ?_⟩
    refine ⟨(), hrun.trans hexec, hstay, Use.forall_targets (fun other hself => ?_) fun arg harg target hmem => ?_⟩
    · rw [htarget] at hself
      exact Option.some.inj hself ▸ hid
    · exact hmono target (hargs arg harg target hmem)
  · refine ⟨b, r, ⟨rfl, hb⟩, fun _ hu => hu, .inl ⟨(), hrun, hstay, Use.forall_targets (fun other hself => ?_) hargs⟩⟩
    rcases hnone with hpolicy | hnone
    · cases hb.policy.symm.trans hpolicy
    · cases hnone.symm.trans hself

lemma ahead_flag (hb : a.Ahead underway pending b) (id : DeclId) :
    a.Ahead (insert id underway) (pending.erase id) (b.flag id true) :=
  { hb.toBetween.flag id with
    policy := hb.policy, skips := hb.skips, libraries := hb.libraries
    headers := (b.headers_flag id true).trans hb.headers }

lemma ahead_publish {c : Atlas} {id : DeclId} {shape : Shape}
    (hc : a.Ahead (insert id underway) (pending.erase id) c) (hid : c.graph.Settles id)
    (hloads : a.LoadsTo id shape)
    (htargets : ∀ target ∈ shape.references.map (·.2), c.graph.Settles target) :
    a.Ahead underway pending (c.publish id shape) :=
  { hc.toBetween.publish hid hloads htargets with
    policy := hc.policy, skips := hc.skips, libraries := hc.libraries
    headers := (c.headers_publish id shape).trans hc.headers }

/-- A run that loads what it meets finds out the shape that loading alone gives. -/
lemma exec_shapeOf_ahead {id : DeclId} {alone : Atlas} {load' : DeclId → Work Unit}
    (hlazy : a.settings.loadPolicy = .lazy) (hlibraries : a.libraries = []) (hd : a.graph.get? id = some d)
    (hunloaded : d.loaded = false) (hempty : d.shape = {}) (hsource : d.provenance = .source) (halone : (load id).exec a = (.ok (), alone))
    (hload : GetsAhead a underway pending load') (hb : a.Ahead underway pending b) :
    ∃ shape c, (shapeOf (followWith load') d).exec b = (.ok shape, c) ∧ a.LoadsTo id shape ∧
      a.Ahead underway pending c ∧ (∀ other, b.graph.Settles other → c.graph.Settles other) ∧
      ∀ target ∈ shape.references.map (·.2), c.graph.Settles target := by
  obtain ⟨shape, r, hshape, rfl⟩ := exec_shapeOf_of_load hd hunloaded hempty halone
  have hsteady : (Regime.ahead a underway pending (a.flag id true)).Steady fun _ => False :=
    ahead_steady hlibraries (a.headers_flag id true) rfl
  have htracks : Tracks (Regime.ahead a underway pending (a.flag id true)) [] Shape.uses
      (shapeOf (followWith load') d) (shapeOf (followWith (loadWith a.capacity)) d) := by
    refine shapeOf_tracks hsteady (ahead_followed hlazy hload) d fun m row hmodule => ?_
    rw [hsource] at hmodule
    cases hmodule
  obtain ⟨c, _, ⟨rfl, hc⟩, hmono, hruns⟩ := htracks b (a.flag id true) ⟨rfl, hb⟩ fun _ hu => by cases hu
  rw [hshape] at hruns
  obtain ⟨found, hrun, hfound, huses⟩ | ⟨fault, -, hfault, -⟩ := hruns
  · obtain ⟨hok, rfl⟩ := Prod.mk.inj hfound
    cases hok
    refine ⟨shape, c, hrun, ?_, hc, ?_, Shape.forall_references huses⟩
    · refine ⟨_, { d with loaded := true, shape := shape }, halone, ?_, rfl, rfl⟩
      rw [Atlas.get?_publish, if_pos rfl, Atlas.get?_flag, if_pos rfl, hd]
      rfl
    · intro other h
      have hsingle : ∀ target, target ∈ (Use.declared other [] none).targets ↔ target = other := by
        simp [Use.targets, Use.targetsEach]
      refine hmono (.declared other [] none) ?_ other ((hsingle other).mpr rfl)
      intro target hmem
      exact (hsingle target).mp hmem ▸ h
  · cases (Prod.mk.inj hfault).1

/-- A load that follows every use succeeds, if more loads may nest than are pending. -/
lemma loadWith_getsAhead (hlazy : a.settings.loadPolicy = .lazy) (hlibraries : a.libraries = [])
    (hsource : ∀ id d, a.graph.get? id = some d → d.provenance = .source ∧ d.shape = {})
    (hloads : ∀ id d, a.graph.get? id = some d → ∃ b, (load id).exec a = (.ok (), b))
    (hfuel : pending.card < fuel) : GetsAhead a underway pending (loadWith fuel) := by
  induction fuel generalizing underway pending with
  | zero => omega
  | succ fuel ih =>
    intro id b hb
    rcases exec_loadWith_cases fuel id b with ⟨hexec, hsettles⟩ | ⟨d, r, c, hd, hloaded, hrun, -, hruns⟩
    · exact ⟨b, hexec, hb, fun _ h => h, hsettles⟩
    -- The declaration stands in `a` as it stands here, and its load there succeeds.
    obtain ⟨hsame, -⟩ := hb.untouched hd hloaded
    obtain ⟨alone, halone⟩ := hloads id d hsame
    obtain ⟨hsource, hempty⟩ := hsource id d hsame
    rw [hempty] at hruns
    simp only [Shape.onto_empty] at hruns
    obtain ⟨shape, _, hrun', hshape, hc, hmono, htargets⟩ :=
      exec_shapeOf_ahead hlazy hlibraries hsame hloaded hempty hsource halone
        (ih (hb.card_lt hd hloaded hfuel)) (ahead_flag hb id)
    cases hrun.symm.trans hrun'
    have hid : c.graph.Settles id := hmono id (b.settles_flag_self id)
    obtain ⟨_, ⟨⟩, hexec⟩ | ⟨_, ⟨⟩, -⟩ := hruns
    refine ⟨_, hexec, ahead_publish hc hid hshape htargets, fun other h => ?_, ?_⟩
    · exact Atlas.settles_publish (hmono other (Atlas.settles_flag h)) shape
    · exact Atlas.settles_publish hid shape

end Work

lemma Atlas.size_le_capacity (a : Atlas) : a.graph.size ≤ a.capacity := by
  have hfold : ∀ (f : Declaration → Nat) (ds : List Declaration) (n : Nat),
      n ≤ ds.foldl (fun n d => n + f d) n := by
    intro f ds
    induction ds with
    | nil => exact Nat.le_refl
    | cons d ds ih => exact fun n => Nat.le_trans (Nat.le_add_right n (f d)) (ih (n + f d))
  unfold Atlas.capacity
  rw [← Array.foldl_toList]
  exact Nat.le_trans (Nat.le_add_right _ _) (hfold _ _ _)

/-- The atlas of some documents under a policy, nothing of which is loaded yet. Documents
that cannot be registered leave behind what was registered before the failure. -/
def Atlas.ofDocuments (settings : Settings) (documents : List Source.Document)
    (policy : LoadPolicy) : Atlas :=
  ({ settings := { settings with loadPolicy := policy } } : Atlas).afterAll
    (documents.map .addDocument)

namespace Atlas

variable {settings : Settings} {documents : List Source.Document} {policy : LoadPolicy}

lemma ofDocuments_induction {P : Atlas → Prop}
    (hinitial : P { settings := { settings with loadPolicy := policy } })
    (hregister : ∀ d : Declaration, d.Fresh → d.provenance = .source → Work.Keeps P (Work.register d)) :
    P (ofDocuments settings documents policy) := by
  refine afterAll_induction (fun call hcall => ?_) hinitial
  obtain ⟨document, -, rfl⟩ := List.mem_map.mp hcall
  exact (Work.addDocument_keeps hregister document).bind fun _ => .pure _

lemma loadPolicy_ofDocuments :
    (ofDocuments settings documents policy).settings.loadPolicy = policy :=
  ofDocuments_induction (P := (·.settings.loadPolicy = policy)) rfl fun _ _ _ _ ha => ha

lemma libraries_ofDocuments : (ofDocuments settings documents policy).libraries = [] :=
  ofDocuments_induction (P := (·.libraries = [])) rfl fun _ _ _ _ ha => ha

/-- Everything in the atlas of some documents comes from source, empty and unloaded. -/
lemma get?_ofDocuments {id : DeclId} (hd : (ofDocuments settings documents policy).graph.get? id = some d) :
    (d.provenance = .source ∧ d.shape = {}) ∧ d.loaded = false := by
  have hall : ∀ id d, (ofDocuments settings documents policy).graph.get? id = some d →
      (d.provenance = .source ∧ d.shape = {}) ∧ d.loaded = false := by
    refine ofDocuments_induction (P := fun a => ∀ id d, a.graph.get? id = some d →
      (d.provenance = .source ∧ d.shape = {}) ∧ d.loaded = false) ?_ ?_
    · intro id d hd
      simp [Graph.get?] at hd
    · intro d hfresh hsource a ha id found hfound
      rcases Graph.get?_add_eq_some hfound with hold | ⟨-, rfl, -, -⟩
      · exact ha id found hold
      · exact ⟨⟨hsource, hfresh.empty⟩, hfresh.unloaded⟩
  exact hall id d hd

/-- The regime of two runs that differ in the load policy alone. -/
def policyRegime (policy : LoadPolicy) : Work.Regime where
  inStep a a' := a' = a.withPolicy policy
  known _ _ := True

lemma addDocument_tracks (policy : LoadPolicy) (document : Source.Document) :
    Work.Tracks (policyRegime policy) [] (·.flatMap Work.noUses) (Work.addDocument document)
      (Work.addDocument document) := by
  refine Work.Tracks.mapM fun placed _ => Work.Tracks.read fun a a' hstep => ?_
  obtain rfl : a' = a.withPolicy policy := hstep
  refine (Work.Tracks.check (fun _ => trivial) _).bindPlain fun d => ?_
  rintro b _ rfl -
  exact ⟨_, _, rfl, fun _ _ => trivial, .inl ⟨_, rfl, rfl, fun _ _ => trivial⟩⟩

lemma after_addDocument (a : Atlas) (document : Source.Document) :
    a.after (.addDocument document) = ((Work.addDocument document).exec a).2 := by
  unfold after Call.work
  rw [Work.exec_bind]
  cases (Work.addDocument document).exec a with
  | mk r b => cases r <;> rfl

lemma withPolicy_after_addDocument (a : Atlas) (document : Source.Document) :
    (a.after (.addDocument document)).withPolicy policy =
      (a.withPolicy policy).after (.addDocument document) := by
  rw [after_addDocument, after_addDocument]
  obtain ⟨b, _, rfl, -, ⟨_, hrun, hrun', -⟩ | ⟨_, hrun, hrun', -⟩⟩ :=
    addDocument_tracks policy document a (a.withPolicy policy) rfl fun _ hu => by cases hu
  · rw [hrun, hrun']
  · rw [hrun, hrun']

/-- Registering documents does not depend on the load policy. -/
lemma ofDocuments_onResolve : (ofDocuments settings documents .lazy).withPolicy .onResolve =
    ofDocuments settings documents .onResolve := by
  have hrun : ∀ (documents : List Source.Document) (a : Atlas),
      (a.afterAll (documents.map .addDocument)).withPolicy .onResolve =
        (a.withPolicy .onResolve).afterAll (documents.map .addDocument) := by
    intro documents
    induction documents with
    | nil => exact fun _ => rfl
    | cons document documents ih =>
      intro a
      have hrest := ih (a.after (.addDocument document))
      rw [withPolicy_after_addDocument] at hrest
      exact hrest
  exact hrun documents { settings := { settings with loadPolicy := .lazy } }

/-- Before anything is loaded, an atlas under the other policy is ahead by nothing. -/
lemma ahead_ofDocuments : (ofDocuments settings documents .lazy).Ahead ∅
    (Finset.range (ofDocuments settings documents .lazy).graph.size)
    (ofDocuments settings documents .onResolve) := by
  rw [← ofDocuments_onResolve]
  refine ⟨⟨fun hd _ => ⟨hd, ?_⟩, fun hd hloaded _ => ?_⟩, rfl, rfl, libraries_ofDocuments, rfl⟩
  · exact Finset.mem_range.mpr (Graph.lt_size_of_get? hd)
  · rw [(get?_ofDocuments hd).2] at hloaded
    cases hloaded

/-- Where each declaration of some documents loads alone, loading one together with all it
leads to succeeds, whatever circles they form. Afterwards every declaration that can be
reached from it is loaded, and each that was loaded has the shape it gets alone. -/
theorem load_onResolve_of_lazy (settings : Settings) (documents : List Source.Document)
    (hlazy : ∀ id < (ofDocuments settings documents .lazy).graph.size,
      ∃ b, (Work.load id).exec (ofDocuments settings documents .lazy) = (.ok (), b))
    (id : DeclId) :
    ∃ b, (Work.load id).exec (ofDocuments settings documents .onResolve) = (.ok (), b) ∧
      b.graph.headers = (ofDocuments settings documents .lazy).graph.headers ∧
      (∀ other d, Relation.ReflTransGen (fun x y => y ∈ b.graph.neighbours x) id other →
        b.graph.get? other = some d → d.loaded = true) ∧
      ∀ other d, b.graph.get? other = some d → d.loaded = true →
        (ofDocuments settings documents .lazy).LoadsTo other d.shape := by
  have hfuel : (Finset.range (ofDocuments settings documents .lazy).graph.size).card <
      (ofDocuments settings documents .onResolve).capacity + 1 := by
    have hsize := (ofDocuments settings documents .onResolve).size_le_capacity
    rw [← ofDocuments_onResolve] at hsize ⊢
    rw [Finset.card_range]
    exact Nat.lt_succ_of_le hsize
  obtain ⟨b, hrun, hahead, -, hid⟩ := Work.loadWith_getsAhead
    loadPolicy_ofDocuments libraries_ofDocuments (fun _ _ hd => (get?_ofDocuments hd).1)
    (fun id d hd => hlazy id (Graph.lt_size_of_get? hd)) hfuel id _ ahead_ofDocuments
  refine ⟨b, (Work.exec_load id _).trans hrun, hahead.headers, fun other d hreach => ?_, ?_⟩
  · have hsettles : b.graph.Settles other := by
      induction hreach with
      | refl => exact hid
      | @tail x y _ hstep ih =>
        unfold Graph.neighbours at hstep
        cases hx : b.graph.get? x with
        | none => simp [hx] at hstep
        | some e =>
          simp only [hx, Option.map_some, Option.getD_some] at hstep
          exact (hahead.done hx (ih e hx) (Finset.notMem_empty x)).2 y hstep
    exact hsettles d
  · exact fun other d hd hloaded => (hahead.done hd hloaded (Finset.notMem_empty other)).1

/-- Three types that lead to each other and to themselves. -/
def circles : Source.Document := .read "circles.cs"
  "class A : B \x7b A[] Next \x7b get; \x7d \x7d class B : A \x7b C<B> Find(A a) => null; \x7d class C<T> where T : B \x7b \x7d"

theorem load_onResolve_circles :
    (∀ id < (ofDocuments {} [circles] .lazy).graph.size,
      ∃ b, (Work.load id).exec (ofDocuments {} [circles] .lazy) = (.ok (), b)) ∧
    ∃ b, (Work.load 0).exec (ofDocuments {} [circles] .onResolve) = (.ok (), b) ∧
      b.graph.headers = (ofDocuments {} [circles] .lazy).graph.headers ∧
      (∀ other d, Relation.ReflTransGen (fun x y => y ∈ b.graph.neighbours x) 0 other →
        b.graph.get? other = some d → d.loaded = true) ∧
      ∀ other d, b.graph.get? other = some d → d.loaded = true →
        (ofDocuments {} [circles] .lazy).LoadsTo other d.shape := by
  have hok : ∀ id < (ofDocuments {} [circles] .lazy).graph.size,
      ((Work.load id).exec (ofDocuments {} [circles] .lazy)).1.isOk = true := by
    decide +kernel
  have hlazy : ∀ id < (ofDocuments {} [circles] .lazy).graph.size,
      ∃ b, (Work.load id).exec (ofDocuments {} [circles] .lazy) = (.ok (), b) := by
    intro id hid
    have hrun := hok id hid
    cases hresult : (Work.load id).exec (ofDocuments {} [circles] .lazy) with
    | mk result b =>
      cases result with
      | ok _ => exact ⟨b, rfl⟩
      | error fault =>
        rw [hresult] at hrun
        cases hrun
  exact ⟨hlazy, load_onResolve_of_lazy {} [circles] hlazy 0⟩

end Atlas

end TypeAtlas
