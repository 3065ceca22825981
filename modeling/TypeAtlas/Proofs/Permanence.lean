import TypeAtlas.Proofs.LoadPolicy

/-!
What lasts in an atlas. Main statement: once a declaration is loaded, no call changes it
again, whether it succeeds or fails. Its header, its shape and the edges that leave it stay
as they are, and only more data can be attached to it.

A load writes to its own declaration alone. That one is unloaded when the load begins and
counts as loaded from then on, so what is loaded before a step is out of reach for every
load inside the step.
-/

namespace TypeAtlas

variable {value : Datum} {data data' : SideData}

namespace SideData

/-- The second holds the data of the first and what was attached later. -/
def Grows (data data' : SideData) : Prop := data.entries <+: data'.entries

/-- A value that was attached is found again. -/
lemma Grows.get? (h : data.Grows data') {slot : Slot} (hvalue : data.get? slot = some value) :
    data'.get? slot = some value :=
  List.IsPrefix.find?_eq_some h hvalue

lemma grows_insert (h : data.insert value = some data') : data.Grows data' := by
  unfold insert at h
  split at h
  · cases h
  · rw [← Option.some.inj h]
    exact List.prefix_append _ _

end SideData

/-- A declaration and what became of it: the header is the same, data was attached at most,
and if it was loaded, it still has its shape. -/
structure Declaration.Becomes (d e : Declaration) : Prop where
  header : e = { d with data := e.data, loaded := e.loaded, shape := e.shape }
  data : d.data.Grows e.data
  loaded : d.loaded = true → e.loaded = true ∧ e.shape = d.shape

namespace Declaration.Becomes

lemma refl (d : Declaration) : d.Becomes d := ⟨rfl, List.prefix_rfl, fun h => ⟨h, rfl⟩⟩

lemma trans {d e f : Declaration} (h : d.Becomes e) (h' : e.Becomes f) : d.Becomes f where
  header := by
    have hheader := h'.header
    rw [h.header] at hheader
    exact hheader
  data := h.data.trans h'.data
  loaded := by
    intro hloaded
    obtain ⟨he, hshape⟩ := h.loaded hloaded
    obtain ⟨hf, hshape'⟩ := h'.loaded he
    exact ⟨hf, hshape'.trans hshape⟩

/-- The load of a declaration may give it any shape or leave it unloaded. -/
lemma ofMarked {d e e' : Declaration} (hunloaded : d.loaded = false)
    (h : Becomes { d with loaded := true } e)
    (he' : e' = { e with loaded := e'.loaded, shape := e'.shape }) : d.Becomes e' where
  header := by
    rw [he', h.header]
  data := by
    rw [he']
    exact h.data
  loaded := by
    intro hloaded
    rw [hunloaded] at hloaded
    cases hloaded

end Declaration.Becomes

namespace Atlas

/-- Everything in the first atlas is still in the second, and what was loaded has the same
edges leaving it. -/
def Lasts (a b : Atlas) : Prop :=
  ∀ id d, a.graph.get? id = some d → ∃ e, b.graph.get? id = some e ∧ d.Becomes e ∧
    (d.loaded = true → b.graph.outgoing id = a.graph.outgoing id)

namespace Lasts

variable {a b c : Atlas} {id : DeclId} {d : Declaration}

lemma refl (a : Atlas) : a.Lasts a := fun _ d hd => ⟨d, hd, .refl d, fun _ => rfl⟩

lemma trans (h : a.Lasts b) (h' : b.Lasts c) : a.Lasts c := by
  intro id d hd
  obtain ⟨e, he, hbecomes, hedges⟩ := h id d hd
  obtain ⟨f, hf, hbecomes', hedges'⟩ := h' id e he
  refine ⟨f, hf, hbecomes.trans hbecomes', fun hloaded => ?_⟩
  exact (hedges' (hbecomes.loaded hloaded).1).trans (hedges hloaded)

lemma attach (hd : a.graph.get? id = some d) (hdata : d.data.insert value = some data) :
    a.Lasts { a with graph := a.graph.modify id ({ · with data := data }) } := by
  intro other e he
  by_cases hid : id = other
  · subst hid
    cases hd.symm.trans he
    refine ⟨{ d with data := data }, ?_, ⟨rfl, SideData.grows_insert hdata, ?_⟩, fun _ => rfl⟩
    · exact (Graph.get?_modify_self a.graph id _).trans (by rw [hd]; rfl)
    · exact fun hloaded => ⟨hloaded, rfl⟩
  · exact ⟨e, (Graph.get?_modify_of_ne a.graph _ hid).trans he, .refl e, fun _ => rfl⟩

end Lasts

end Atlas

namespace Graph

lemma filter_foldl_addEdge {id other : DeclId} (hne : id ≠ other) (references : List (EdgeKind × DeclId))
    (edges : List Edge) :
    (references.foldl (fun edges (kind, target) => addEdge edges ⟨kind, id, target⟩) edges).filter
      (·.source == other) = edges.filter (·.source == other) := by
  have hadd : ∀ (edges : List Edge) (kind : EdgeKind) (target : DeclId),
      (addEdge edges ⟨kind, id, target⟩).filter (·.source == other) =
        edges.filter (·.source == other) := by
    intro edges kind target
    have hsource : (id == other) = false := by simpa using hne
    unfold addEdge
    split
    · rfl
    · rw [List.filter_cons, if_neg (by simp [hsource])]
  induction references generalizing edges with
  | nil => rfl
  | cons reference rest ih => exact (ih _).trans (hadd edges _ _)

/-- Recording what one declaration refers to adds no edge that leaves another. -/
lemma outgoing_recordReferences (g : Graph) {id other : DeclId} (hne : id ≠ other) :
    (g.recordReferences id).outgoing other = g.outgoing other := by
  unfold recordReferences
  split
  · rfl
  · exact filter_foldl_addEdge hne _ _

end Graph

namespace Work

variable {a b c : Atlas} {id : DeclId} {d : Declaration}

lemma register_keeps_lasts (a : Atlas) (d : Declaration) : Keeps a.Lasts (register d) := by
  intro b hb
  refine hb.trans fun id e he => ⟨e, ?_, .refl e, fun _ => ?_⟩
  · exact (Graph.get?_add d (Graph.lt_size_of_get? he)).trans he
  · exact congrArg (List.filter _) (Graph.edges_add b.graph d)

lemma setData_keeps_lasts (a : Atlas) (id : DeclId) (value : Datum) :
    Keeps a.Lasts (setData id value) :=
  setData_keeps fun _ _ _ hb hd hdata => hb.trans (.attach hd hdata)

end Work

namespace Atlas.Lasts

variable {b c c' : Atlas} {id : DeclId} {d : Declaration}

/-- The end of a load changes its own declaration, of which nothing has to last. -/
lemma ofMarked (hd : b.graph.get? id = some d) (hunloaded : d.loaded = false)
    (h : (b.flag id true).Lasts c) {f : Declaration → Declaration}
    (hf : ∀ e, f e = { e with loaded := (f e).loaded, shape := (f e).shape })
    (hget : ∀ other, c'.graph.get? other =
      if id = other then (c.graph.get? other).map f else c.graph.get? other)
    (hedges : ∀ other, id ≠ other → c'.graph.outgoing other = c.graph.outgoing other) :
    b.Lasts c' := by
  intro other e he
  by_cases hid : id = other
  · subst hid
    cases hd.symm.trans he
    have hmarked : (b.flag id true).graph.get? id = some { d with loaded := true } := by
      rw [get?_flag, if_pos rfl, hd]
      rfl
    obtain ⟨found, hfound, hbecomes, -⟩ := h id _ hmarked
    refine ⟨f found, ?_, ?_, fun hloaded => ?_⟩
    · rw [hget, if_pos rfl, hfound]
      rfl
    · exact .ofMarked hunloaded hbecomes (hf found)
    · rw [hunloaded] at hloaded
      cases hloaded
  · have hmarked : (b.flag id true).graph.get? other = some e := by
      rw [get?_flag, if_neg hid, he]
    obtain ⟨found, hfound, hbecomes, hsame⟩ := h other e hmarked
    refine ⟨found, ?_, hbecomes, fun hloaded => ?_⟩
    · rw [hget, if_neg hid, hfound]
    · exact (hedges other hid).trans (hsame hloaded)

end Atlas.Lasts

namespace Work

/-- A load changes nothing that was loaded before it, whether it succeeds or fails. -/
lemma loadWith_keeps_lasts (a : Atlas) (fuel : Nat) (id : DeclId) :
    Keeps a.Lasts (loadWith fuel id) := by
  refine loadWith_keeps_from Atlas.Lasts.refl Atlas.Lasts.trans
    (fun b => define_keeps fun d _ => register_keeps_lasts b d) ?_ a fuel id
  intro b c id d hd hunloaded h
  refine ⟨fun shape => ?_, ?_⟩
  · refine h.ofMarked hd hunloaded (f := ({ · with shape := shape })) (fun _ => rfl)
      (fun other => c.get?_publish id other shape) fun other hne => ?_
    exact Graph.outgoing_recordReferences _ hne
  · exact h.ofMarked hd hunloaded (f := ({ · with loaded := false, shape := {} })) (fun _ => rfl)
      (fun other => c.get?_rollBack id other) fun _ _ => rfl

lemma load_keeps_lasts (a : Atlas) (id : DeclId) : Keeps a.Lasts (load id) :=
  load_keeps fun fuel => loadWith_keeps_lasts a fuel id

end Work

/-- What is in an atlas lasts through every call. -/
lemma Call.keeps_lasts (a : Atlas) (call : Call) : Work.Keeps a.Lasts call.work := by
  exact Call.keeps (fun d _ => Work.register_keeps_lasts a d) (fun library b hb => hb)
    (Work.setData_keeps_lasts a) (Work.load_keeps_lasts a) call

namespace Atlas

/-- A declaration that is loaded after some calls is just the same after any further calls,
each of which may fail: its header and its shape are kept, and so are the edges that leave it.
Data can be attached to it, but no value that was attached is ever replaced. -/
theorem loaded_never_changed (settings : Settings) (calls later : List Call) (id : DeclId)
    (d : Declaration)
    (hd : (({ settings } : Atlas).afterAll calls).graph.get? id = some d) (hloaded : d.loaded = true) :
    ∃ e, (({ settings } : Atlas).afterAll (calls ++ later)).graph.get? id = some e ∧
      e = { d with data := e.data } ∧
      (({ settings } : Atlas).afterAll (calls ++ later)).graph.outgoing id =
        (({ settings } : Atlas).afterAll calls).graph.outgoing id ∧
      d.data.entries <+: e.data.entries ∧
      ∀ slot value, d.data.get? slot = some value → e.data.get? slot = some value := by
  have hlasts : (({ settings } : Atlas).afterAll calls).Lasts
      (({ settings } : Atlas).afterAll (calls ++ later)) := by
    unfold afterAll
    rw [List.foldl_append]
    exact afterAll_induction (fun call _ => call.keeps_lasts _) (.refl _)
  obtain ⟨e, he, hbecomes, hedges⟩ := hlasts id d hd
  obtain ⟨hstill, hshape⟩ := hbecomes.loaded hloaded
  refine ⟨e, he, ?_, hedges hloaded, hbecomes.data, fun slot value => hbecomes.data.get?⟩
  have hheader := hbecomes.header
  rwa [hstill, hshape, ← hloaded] at hheader

/-- The first of three types in a circle, loaded and then met by all kinds of calls. -/
theorem loaded_never_changed_circles :
    let calls := [.addDocument circles, .load 0, .setData 0 (.word 1)]
    let later := [.setData 0 (.word 2), .setData 0 (.text "seen"), .addDocument circles, .loadAll,
      .resolve { requester := "", location := "" } (.named "Nowhere" [] none)]
    ∃ d, (({ settings := {} } : Atlas).afterAll calls).graph.get? 0 = some d ∧ d.loaded = true ∧
      ∃ e, (({ settings := {} } : Atlas).afterAll (calls ++ later)).graph.get? 0 = some e ∧
        e = { d with data := e.data } ∧
        (({ settings := {} } : Atlas).afterAll (calls ++ later)).graph.outgoing 0 =
          (({ settings := {} } : Atlas).afterAll calls).graph.outgoing 0 ∧
        d.data.entries <+: e.data.entries ∧
        ∀ slot value, d.data.get? slot = some value → e.data.get? slot = some value := by
  intro calls later
  have hloaded : (({ settings := {} } : Atlas).afterAll calls).graph.isLoaded 0 = true := by
    decide +kernel
  unfold Graph.isLoaded at hloaded
  cases hd : (({ settings := {} } : Atlas).afterAll calls).graph.get? 0 with
  | none => simp [hd] at hloaded
  | some d =>
    have hloaded : d.loaded = true := by simpa [hd] using hloaded
    exact ⟨d, rfl, hloaded, loaded_never_changed {} calls later 0 d hd hloaded⟩

end Atlas

end TypeAtlas
