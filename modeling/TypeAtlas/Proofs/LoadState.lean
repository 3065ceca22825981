import Mathlib.Data.List.Nodup
import TypeAtlas.Proofs.Loading
import TypeAtlas.Proofs.References

/-!
The state of declarations between calls. A declaration is unloaded, with nothing in its
shape and no edge that leaves it, or it is loaded and its edges are its references. Main
statement: this holds after any calls, whether they succeed or fail and under either load
policy, so the graph answers who extends a declaration exactly.

A load marks its declaration before it works, publishes the shape part by part, and loads inside
it may succeed although it fails itself. The rollback clears whatever was published by then. It is
exact because nothing but the load itself changes a declaration that counts as loaded, and because
no edge is recorded before the shape is complete.
-/

namespace TypeAtlas

variable {a : Atlas} {id : DeclId} {d : Declaration} {f : Declaration → Declaration}

namespace Graph

variable {edges : List Edge} {edge : Edge} {references : List (EdgeKind × DeclId)} {g : Graph}

/-- The edges of every declaration are what its shape refers to, each recorded once, and
what is not loaded has an empty shape. -/
structure Settled (g : Graph) : Prop where
  nodup : g.edges.Nodup
  edges : ∀ {id d}, g.get? id = some d → ∀ kind target,
    ⟨kind, id, target⟩ ∈ g.edges ↔ (kind, target) ∈ d.shape.references
  empty : ∀ {id d}, g.get? id = some d → d.loaded = false → d.shape = {}
  sources : ∀ edge ∈ g.edges, edge.source < g.size

lemma mem_addEdge {other : Edge} : other ∈ addEdge edges edge ↔ other = edge ∨ other ∈ edges := by
  unfold addEdge
  split
  · rename_i hedge
    have hmem : edge ∈ edges := by simpa using hedge
    constructor
    · exact .inr
    · rintro (rfl | hother)
      · exact hmem
      · exact hother
  · exact List.mem_cons

lemma nodup_addEdge (edge : Edge) (h : edges.Nodup) : (addEdge edges edge).Nodup := by
  unfold addEdge
  split
  · exact h
  · rename_i hedge
    exact List.nodup_cons.mpr ⟨by simpa using hedge, h⟩

lemma mem_foldl_addEdge :
    edge ∈ references.foldl (fun edges (kind, target) => addEdge edges ⟨kind, id, target⟩) edges ↔
      edge ∈ edges ∨ ∃ kind target, (kind, target) ∈ references ∧ edge = ⟨kind, id, target⟩ := by
  induction references generalizing edges with
  | nil => simp
  | cons reference rest ih =>
    obtain ⟨kind, target⟩ := reference
    simp only [List.foldl_cons, ih, mem_addEdge, List.mem_cons, Prod.mk.injEq]
    constructor
    · rintro ((rfl | hold) | ⟨k, t, hrest, rfl⟩)
      · exact .inr ⟨kind, target, .inl ⟨rfl, rfl⟩, rfl⟩
      · exact .inl hold
      · exact .inr ⟨k, t, .inr hrest, rfl⟩
    · rintro (hold | ⟨k, t, ⟨rfl, rfl⟩ | hrest, rfl⟩)
      · exact .inl (.inr hold)
      · exact .inl (.inl rfl)
      · exact .inr ⟨k, t, hrest, rfl⟩

lemma nodup_foldl_addEdge (h : edges.Nodup) :
    (references.foldl (fun edges (kind, target) => addEdge edges ⟨kind, id, target⟩) edges).Nodup := by
  induction references generalizing edges with
  | nil => exact h
  | cons reference rest ih => exact ih (nodup_addEdge _ h)

lemma Settled.initial : ({} : Graph).Settled where
  nodup := List.nodup_nil
  edges := by intro id d hd; simp [get?] at hd
  empty := by intro id d hd; simp [get?] at hd
  sources := by simp

lemma references_empty : ({} : Shape).references = [] := rfl

lemma Settled.add (h : g.Settled) (hd : d.Fresh) :
    (g.add d).2.Settled where
  nodup := by
    rw [edges_add]
    exact h.nodup
  edges := by
    intro id found hfound kind target
    rw [edges_add]
    rcases get?_add_eq_some hfound with hold | ⟨rfl, rfl, -, -⟩
    · exact h.edges hold kind target
    · have hnone : ⟨kind, g.size, target⟩ ∉ g.edges := fun hmem => by
        have := h.sources _ hmem
        simp at this
      simp [hnone, hd.empty, references_empty]
  empty := by
    intro id found hfound hunloaded
    rcases get?_add_eq_some hfound with hold | ⟨rfl, rfl, -, -⟩
    · exact h.empty hold hunloaded
    · exact hd.empty
  sources := by
    intro edge hedge
    rw [edges_add] at hedge
    exact Nat.lt_of_lt_of_le (h.sources edge hedge) (size_le_add g d)

/-- Changes that leave the shape alone keep a graph settled, unless a declaration with a
shape counts as unloaded by them. -/
lemma Settled.modify (h : g.Settled) (hshape : ∀ d, g.get? id = some d → (f d).shape = d.shape)
    (hempty : ∀ d, g.get? id = some d → (f d).loaded = false → (f d).shape = {}) :
    (g.modify id f).Settled where
  nodup := h.nodup
  edges := by
    intro other found hfound kind target
    rw [edges_modify]
    by_cases hid : id = other
    · subst hid
      rw [get?_modify_self] at hfound
      obtain ⟨d, hd, rfl⟩ := Option.map_eq_some_iff.mp hfound
      rw [hshape d hd]
      exact h.edges hd kind target
    · rw [get?_modify_of_ne g f hid] at hfound
      exact h.edges hfound kind target
  empty := by
    intro other found hfound hunloaded
    by_cases hid : id = other
    · subst hid
      rw [get?_modify_self] at hfound
      obtain ⟨d, hd, rfl⟩ := Option.map_eq_some_iff.mp hfound
      exact hempty d hd hunloaded
    · rw [get?_modify_of_ne g f hid] at hfound
      exact h.empty hfound hunloaded
  sources := by simpa using h.sources

/-- A loaded declaration with an empty shape can be given one, if its references are
recorded with it. -/
lemma Settled.publish (h : g.Settled) (hd : g.get? id = some d) (hloaded : d.loaded = true)
    (hempty : d.shape = {}) (shape : Shape) :
    ((g.modify id ({ · with shape := shape })).recordReferences id).Settled := by
  have hget : (g.modify id ({ · with shape := shape })).get? id = some { d with shape := shape } := by
    rw [get?_modify_self, hd]
    rfl
  have hedges : ((g.modify id ({ · with shape := shape })).recordReferences id).edges =
      shape.references.foldl (fun edges (kind, target) => addEdge edges ⟨kind, id, target⟩) g.edges := by
    unfold recordReferences
    rw [hget]
    rfl
  refine ⟨?_, ?_, ?_, ?_⟩
  · rw [hedges]
    exact nodup_foldl_addEdge h.nodup
  · intro other found hfound kind target
    rw [get?_recordReferences] at hfound
    rw [hedges, mem_foldl_addEdge]
    by_cases hid : id = other
    · subst hid
      cases hget.symm.trans hfound
      have hnone : ⟨kind, id, target⟩ ∉ g.edges := by
        rw [h.edges hd, hempty, references_empty]
        exact List.not_mem_nil
      simp [hnone]
    · rw [get?_modify_of_ne g _ hid] at hfound
      rw [← h.edges hfound]
      constructor
      · rintro (hold | ⟨_, _, -, heq⟩)
        · exact hold
        · cases heq
          exact absurd rfl hid
      · exact .inl
  · intro other found hfound hunloaded
    rw [get?_recordReferences] at hfound
    by_cases hid : id = other
    · subst hid
      cases hget.symm.trans hfound
      rw [hloaded] at hunloaded
      cases hunloaded
    · rw [get?_modify_of_ne g _ hid] at hfound
      exact h.empty hfound hunloaded
  · intro edge hedge
    rw [hedges, mem_foldl_addEdge] at hedge
    rw [size_recordReferences, size_modify]
    rcases hedge with hold | ⟨_, _, -, rfl⟩
    · exact h.sources edge hold
    · exact lt_size_of_get? hd

end Graph

/-- Whatever counts as loaded in the first atlas is just the same in the second. -/
def Atlas.KeepsLoaded (a b : Atlas) : Prop :=
  ∀ id d, a.graph.get? id = some d → d.loaded = true → b.graph.get? id = some d

namespace Atlas.KeepsLoaded

variable {b : Atlas}

lemma refl (a : Atlas) : a.KeepsLoaded a := fun _ _ hd _ => hd

lemma trans {c : Atlas} (h : a.KeepsLoaded b) (h' : b.KeepsLoaded c) : a.KeepsLoaded c :=
  fun id d hd hloaded => h' id d (h id d hd hloaded) hloaded

/-- Changing what is not loaded leaves the loaded as it is. -/
lemma modify (h : a.KeepsLoaded b) (hid : ∀ d, a.graph.get? id = some d → d.loaded = false) :
    a.KeepsLoaded { b with graph := b.graph.modify id f } := by
  intro other d hd hloaded
  have hne : id ≠ other := by
    rintro rfl
    rw [hid d hd] at hloaded
    cases hloaded
  exact (Graph.get?_modify_of_ne b.graph f hne).trans (h other d hd hloaded)

end Atlas.KeepsLoaded

/-- An atlas that is settled if a first one is, and still has whatever was loaded there. -/
def Atlas.SettledFrom (a b : Atlas) : Prop := (a.graph.Settled → b.graph.Settled) ∧ a.KeepsLoaded b

namespace Work

lemma register_keeps_settledFrom (a : Atlas) (hd : d.Fresh) : Keeps a.SettledFrom (register d) := by
  rintro b ⟨hsettled, hkept⟩
  refine ⟨fun ha => (hsettled ha).add hd, fun id found hfound hloaded => ?_⟩
  have hold := hkept id found hfound hloaded
  exact (Graph.get?_add d (Graph.lt_size_of_get? hold)).trans hold

lemma define_keeps_settledFrom (a : Atlas) (library : Library) (row : Nat) :
    Keeps a.SettledFrom (define library row) :=
  define_keeps (fun _ hd => register_keeps_settledFrom a hd) library row

/-- Marking an unloaded declaration as loaded keeps a graph settled, since it is empty. -/
lemma settled_flag_true (h : a.graph.Settled) (id : DeclId) : (a.flag id true).graph.Settled :=
  h.modify (fun _ _ => rfl) fun _ _ hfalse => by cases hfalse

/-- A load leaves a settled graph and touches nothing that was loaded before it. -/
lemma loadWith_keeps_settledFrom (a : Atlas) (fuel : Nat) (id : DeclId) :
    Keeps a.SettledFrom (loadWith fuel id) := by
  refine loadWith_keeps_from (fun b => ⟨fun h => h, .refl b⟩) (fun h h' => ⟨h'.1 ∘ h.1, h.2.trans h'.2⟩)
    define_keeps_settledFrom ?_ a fuel id
  rintro b c id d hd hunloaded ⟨hsettled, hkept⟩
  -- Nothing loaded is the declaration at hand, so its changes are harmless.
  have hid : ∀ e, b.graph.get? id = some e → e.loaded = false := fun e he => by
    rwa [← Option.some.inj (hd.symm.trans he)]
  have hfrom : b.KeepsLoaded c := ((Atlas.KeepsLoaded.refl b).modify hid).trans hkept
  have hmarked : (b.flag id true).graph.get? id = some { d with loaded := true } := by
    rw [Atlas.flag, Graph.get?_modify_self, hd]
    rfl
  have hstill := hkept id _ hmarked rfl
  have hempty : b.graph.Settled → d.shape = {} := fun hb => hb.empty hd hunloaded
  refine ⟨fun shape => ⟨fun hb => ?_, fun other e he hloaded => ?_⟩, fun hb => ?_, hfrom.modify hid⟩
  · exact (hsettled (settled_flag_true hb id)).publish hstill rfl (hempty hb) shape
  · have hnew := hfrom.modify (f := ({ · with shape := shape })) hid
    exact (Graph.get?_recordReferences _ _ _).trans (hnew other e he hloaded)
  · -- The rollback clears the shape; nothing was in it when the load began, and no edge leaves it.
    refine (hsettled (settled_flag_true hb id)).modify (fun e he => ?_) fun _ _ _ => rfl
    rw [← Option.some.inj (hstill.symm.trans he)]
    exact (hempty hb).symm

lemma load_keeps_settled (id : DeclId) : Keeps (·.graph.Settled) (load id) := by
  intro a ha
  rw [exec_load]
  exact (loadWith_keeps_settledFrom a _ id a ⟨fun h => h, .refl a⟩).1 ha

lemma setData_keeps_settled (id : DeclId) (value : Datum) :
    Keeps (·.graph.Settled) (setData id value) := by
  refine setData_keeps fun a d data ha _ _ => ?_
  refine ha.modify (f := ({ · with data := data })) (fun _ _ => rfl) fun e he hunloaded => ?_
  exact ha.empty (d := e) he hunloaded

end Work

namespace Graph.Settled

variable {g : Graph}

/-- The edges that leave a declaration, without the declaration. -/
lemma nodup_outgoing (h : g.Settled) (id : DeclId) :
    ((g.outgoing id).map fun edge => (edge.kind, edge.target)).Nodup := by
  refine List.Nodup.map_on ?_ (h.nodup.filter _)
  intro edge hedge other hother heq
  obtain ⟨kind, source, target⟩ := edge
  obtain ⟨kind', source', target'⟩ := other
  simp only [outgoing, List.mem_filter, beq_iff_eq] at hedge hother
  obtain ⟨-, rfl⟩ := hedge
  obtain ⟨-, rfl⟩ := hother
  simpa using heq

lemma mem_outgoing (h : g.Settled) (hd : g.get? id = some d) (pair : EdgeKind × DeclId) :
    pair ∈ (g.outgoing id).map (fun edge => (edge.kind, edge.target)) ↔
      pair ∈ d.shape.references := by
  obtain ⟨kind, target⟩ := pair
  rw [← h.edges hd kind target]
  simp only [outgoing, List.mem_map, List.mem_filter, beq_iff_eq, Prod.mk.injEq]
  constructor
  · rintro ⟨⟨_, _, _⟩, ⟨hmem, rfl⟩, rfl, rfl⟩
    exact hmem
  · intro hmem
    exact ⟨_, ⟨hmem, rfl⟩, rfl, rfl⟩

lemma outgoing_eq_nil (h : g.Settled) (hd : g.get? id = some d) (hunloaded : d.loaded = false) :
    g.outgoing id = [] := by
  have hnone : ∀ pair, pair ∉ (g.outgoing id).map (fun edge => (edge.kind, edge.target)) := by
    intro pair hpair
    rw [h.mem_outgoing hd, h.empty hd hunloaded, references_empty] at hpair
    exact List.not_mem_nil hpair
  exact List.map_eq_nil_iff.mp (List.eq_nil_iff_forall_not_mem.mpr hnone)

lemma mem_extendedBy (h : g.Settled) {target : DeclId} :
    id ∈ g.extendedBy target ↔ ∃ d, g.get? id = some d ∧ d.loaded = true ∧
      ∃ use ∈ d.shape.bases, use.target? = some target := by
  have hedge : id ∈ g.extendedBy target ↔
      id < g.size ∧ ⟨.inherits, id, target⟩ ∈ g.edges := by
    simp only [extendedBy, incoming, ids, List.mem_filter, List.mem_range, List.contains_iff_mem,
      List.mem_map, beq_iff_eq]
    refine and_congr_right fun _ => ?_
    constructor
    · rintro ⟨⟨_, _, _⟩, ⟨⟨hmem, rfl⟩, rfl⟩, rfl⟩
      exact hmem
    · intro hmem
      exact ⟨_, ⟨⟨hmem, rfl⟩, rfl⟩, rfl⟩
  rw [hedge]
  constructor
  · rintro ⟨hsize, hmem⟩
    obtain ⟨d, hd⟩ := get?_of_lt_size hsize
    have href := (h.edges hd _ _).mp hmem
    refine ⟨d, hd, ?_, Shape.inherits_mem_references.mp href⟩
    cases hloaded : d.loaded with
    | true => rfl
    | false =>
      rw [h.empty hd hloaded, references_empty] at href
      exact absurd href List.not_mem_nil
  · rintro ⟨d, hd, -, hbase⟩
    exact ⟨lt_size_of_get? hd, (h.edges hd _ _).mpr (Shape.inherits_mem_references.mpr hbase)⟩

end Graph.Settled

lemma Call.keeps_settled (call : Call) : Work.Keeps (·.graph.Settled) call.work := by
  refine Call.keeps ?_ (fun _ _ ha => ha) Work.setData_keeps_settled Work.load_keeps_settled call
  intro d hd a ha
  exact (Work.register_keeps_settledFrom a hd a ⟨fun h => h, .refl a⟩).1 ha

lemma Graph.pairwise_extendedBy (g : Graph) (target : DeclId) :
    (g.extendedBy target).Pairwise (· < ·) :=
  List.Pairwise.filter _ List.pairwise_lt_range

lemma Atlas.settled_afterAll (settings : Settings) (calls : List Call) :
    (({ settings } : Atlas).afterAll calls).graph.Settled :=
  afterAll_induction (fun call _ => call.keeps_settled) Graph.Settled.initial

/-- After any calls, each of which may have failed, a declaration is either unloaded, with
nothing in its shape and no edge that leaves it, or loaded, with an edge for each of its
references and no edge twice. Who extends a declaration can therefore be read off the graph:
the loaded declarations with it among their bases, in ascending order. -/
theorem Atlas.unloaded_empty_or_loaded_recorded (settings : Settings) (calls : List Call) :
    let g := (({ settings } : Atlas).afterAll calls).graph
    let pairs id := (g.outgoing id).map fun edge => (edge.kind, edge.target)
    (∀ id d, g.get? id = some d →
      (d.loaded = false ∧ d.shape.generics = [] ∧ d.shape.bases = [] ∧ d.shape.members = [] ∧
        d.shape.attributes = [] ∧ g.outgoing id = []) ∨
      (d.loaded = true ∧ (pairs id).Nodup ∧ ∀ pair, pair ∈ pairs id ↔ pair ∈ d.shape.references)) ∧
    ∀ target, (g.extendedBy target).Pairwise (· < ·) ∧
      ∀ id, id ∈ g.extendedBy target ↔ ∃ d, g.get? id = some d ∧ d.loaded = true ∧
        ∃ use ∈ d.shape.bases, use.target? = some target := by
  intro g pairs
  have hsettled : g.Settled := settled_afterAll settings calls
  refine ⟨fun id d hd => ?_, fun target => ⟨g.pairwise_extendedBy target, fun id => ?_⟩⟩
  · cases hloaded : d.loaded with
    | false =>
      have hempty := hsettled.empty hd hloaded
      refine .inl ⟨rfl, ?_, ?_, ?_, ?_, hsettled.outgoing_eq_nil hd hloaded⟩ <;> rw [hempty]
    | true => exact .inr ⟨rfl, hsettled.nodup_outgoing id, hsettled.mem_outgoing hd⟩
  · exact hsettled.mem_extendedBy

end TypeAtlas
