import TypeAtlas.Proofs.Indexing
import TypeAtlas.Proofs.KnownShapes

/-!
Registering the declarations of a plan and loading them. It does not matter what they were
made from, as long as each has the header of its planned declaration and its shape can be found
out: registration numbers them in order, and loads in any order under either policy give them
the planned shapes (`Plan.loads`).
-/

namespace TypeAtlas

open Work

/-- What is known of a declaration, apart from where it was found. -/
structure Profile where
  kind : Kind
  ns : String
  name : String
  arity : Nat
  loaded : Bool
  shape : Shape

def Declaration.profile (e : Declaration) : Profile :=
  ⟨e.kind, e.ns, e.name, e.arity, e.loaded, e.shape.unplaced⟩

/-- The profile that a planned declaration has to get. Declarations are numbered by their places. -/
def Plan.profile (plan : Plan) (d : PlanDecl) : Profile :=
  ⟨d.kind, d.ns, d.name, d.arity, true, plan.shape (fun place => place) d⟩

/-- What is registered for a planned declaration: its header, with nothing loaded yet. Its shape
can be found out wherever the plan is registered. -/
structure Plan.Enters (plan : Plan) (home : String) (d : PlanDecl) (e : Declaration) : Prop where
  kind : e.kind = d.kind
  ns : e.ns = d.ns
  name : e.name = d.name
  arity : e.arity = d.arity
  location : e.location = home
  fresh : e.Fresh
  shape : ∀ {ids : Nat → DeclId} {P : Atlas → Prop} {found : Use → Work Unit}, plan.Known home ids P found →
    Yields P (shapeOf found e) fun shape => shape.unplaced = plan.shape ids d

lemma Plan.Enters.key {plan : Plan} {location : String} {d : PlanDecl} {e : Declaration}
    (h : plan.Enters location d e) : e.key = ⟨d.fullName, d.arity, location⟩ := by
  rw [Declaration.key, Declaration.fullName, h.ns, h.name, h.arity, h.location]
  rfl

lemma Plan.keys_eq {plan : Plan} {location : String} {ds : List PlanDecl} {es : List Declaration}
    (h : List.Forall₂ (plan.Enters location) ds es) :
    es.map Declaration.key = (ds.map fun d => (d.fullName, d.arity)).map fun key => ⟨key.1, key.2, location⟩ := by
  rw [List.map_map]
  induction h with
  | nil => rfl
  | cons hfirst _ ih => rw [List.map_cons, List.map_cons, hfirst.key, ih, Function.comp_apply]

lemma Plan.nodup_keys {plan : Plan} {location : String} {es : List Declaration}
    (h : List.Forall₂ (plan.Enters location) plan.decls es) : (es.map Declaration.key).Nodup := by
  rw [Plan.keys_eq h]
  refine plan.keys.map fun key other heq => ?_
  obtain ⟨hname, harity, -⟩ := Key.mk.inj heq
  exact Prod.ext hname harity

/-! Registration. -/

/-- A graph of some declarations in the order of their numbers. -/
structure Graph.Lists (g : Graph) (es : List Declaration) : Prop where
  indexed : g.Indexed
  listed : g.declarations.toList = es

namespace Graph.Lists

variable {g : Graph} {es : List Declaration}

lemma initial : ({} : Graph).Lists [] := ⟨.initial, rfl⟩

lemma get? (h : g.Lists es) (id : DeclId) : g.get? id = es[id]? := by
  rw [Graph.get?, ← h.listed, Array.getElem?_toList]

lemma size (h : g.Lists es) : g.size = es.length := by rw [Graph.size, ← h.listed, Array.length_toList]

lemma findQualified_eq_none (h : g.Lists es) {key : Key} (hkey : key ∉ es.map Declaration.key) :
    g.findQualified key = none := by
  cases hfound : g.findQualified key with
  | none => rfl
  | some id =>
    obtain ⟨e, he, rfl⟩ := (h.indexed.byKey key id).mp hfound
    rw [h.get?] at he
    exact absurd (List.mem_map_of_mem (List.mem_of_getElem? he)) hkey

lemma add (h : g.Lists es) {e : Declaration} (hkey : e.key ∉ es.map Declaration.key) :
    (g.add e).1 = es.length ∧ (g.add e).2.Lists (es ++ [e]) := by
  have hfree := h.findQualified_eq_none hkey
  refine ⟨?_, h.indexed.add e, ?_⟩
  · rw [add_of_free hfree, h.size]
  · rw [add_of_free hfree, Array.toList_push, h.listed]

end Graph.Lists

/-- Work that registers declarations one after another numbers them in order. -/
lemma mapM_registers {α : Type} {w : α → Work DeclId} {a : Atlas} {xs : List α} {new : List Declaration}
    (h : List.Forall₂ (fun x e => ∀ g : Graph, g.findQualified e.key = none →
      (w x).exec { a with graph := g } = (.ok (g.add e).1, { a with graph := (g.add e).2 })) xs new)
    {g : Graph} {old : List Declaration} (hg : g.Lists old) (hnodup : ((old ++ new).map Declaration.key).Nodup) :
    ∃ g', (xs.mapM w).exec { a with graph := g } =
      (.ok (List.range' old.length new.length), { a with graph := g' }) ∧ g'.Lists (old ++ new) := by
  induction h generalizing g old with
  | nil => exact ⟨g, rfl, by rwa [List.append_nil]⟩
  | @cons x e xs new hfirst _ ih =>
    have hkey : e.key ∉ old.map Declaration.key := by
      rw [List.map_append, List.map_cons] at hnodup
      exact fun hmem => (List.nodup_append.mp hnodup).2.2 _ hmem _ List.mem_cons_self rfl
    obtain ⟨hid, hadded⟩ := hg.add hkey
    have hshift : old ++ e :: new = old ++ [e] ++ new := by rw [List.append_assoc]; rfl
    rw [hshift] at hnodup ⊢
    obtain ⟨g', hrun, hg'⟩ := ih hadded hnodup
    refine ⟨g', ?_, hg'⟩
    rw [List.mapM_cons, exec_bind, hfirst g (hg.findQualified_eq_none hkey)]
    dsimp only
    rw [exec_bind, hrun, hid, List.length_append, List.length_singleton, List.length_cons, List.range'_succ]
    rfl

/-! Loading. -/

variable {plan : Plan} {location : String} {es : List Declaration} {a : Atlas}

lemma Declaration.Fresh.header_eq {e : Declaration} (h : e.Fresh) : e.header = e := by
  rw [Declaration.header, ← h.unloaded, ← h.empty]

/-- Where a plan is registered, the shapes of its declarations are known in advance. -/
lemma Plan.foretold (hes : List.Forall₂ (plan.Enters location) plan.decls es) (ha : a.graph.Lists es) :
    Foretold a.graph.headers a.libraries (· < plan.decls.length) fun place shape =>
      ∀ d, plan.decls[place]? = some d → shape.unplaced = plan.shape (fun place => place) d := by
  refine ⟨fun {P found place e} hplace he hP hfound => ?_⟩
  obtain ⟨d, hd⟩ : ∃ d, plan.decls[place]? = some d := ⟨_, List.getElem?_eq_getElem hplace⟩
  have hknown : plan.Known location (fun place => place) P found :=
    { registered := by
        intro b place d hb hd
        obtain ⟨e, he, hentry⟩ := forall₂_at hes hd
        have hget : a.graph.get? place = some e := (ha.get? place).trans he
        have hindex : b.graph.headers.byKey = a.graph.headers.byKey := by rw [(hP b hb).1]
        change b.graph.byKey = a.graph.byKey at hindex
        rw [Graph.findQualified, hindex, ← hentry.key]
        exact (ha.indexed.byKey e.key place).mpr ⟨e, hget, rfl⟩
      follows := by
        intro use huse
        refine hfound use fun target htarget => ?_
        obtain ⟨place, hlt, rfl⟩ := huse target htarget
        exact hlt }
  obtain ⟨e', he', hentry⟩ := forall₂_at hes hd
  have heq : e = e' := by
    rw [Graph.get?_headers, ha.get?, he', Option.map_some, hentry.fresh.header_eq] at he
    exact (Option.some.inj he).symm
  subst heq
  refine (hentry.shape hknown).imp fun shape hshape other hother => ?_
  rw [hshape, Option.some.inj (hd.symm.trans hother)]

/-- Whatever the declarations of a plan were made from, loads in any order succeed, and when all
are loaded they are what was planned. -/
lemma Plan.loads (hes : List.Forall₂ (plan.Enters location) plan.decls es) (ha : a.graph.Lists es)
    {order : List DeclId} (horder : ∀ id, id ∈ order ↔ id < plan.decls.length) :
    ∃ b, (order.forM load).exec a = (.ok (), b) ∧
      ∀ place, (b.graph.get? place).map Declaration.profile = plan.decls[place]?.map plan.profile := by
  have hfresh : ∀ {id e}, a.graph.get? id = some e → e.Fresh ∧ id < plan.decls.length := by
    intro id e he
    rw [ha.get?] at he
    obtain ⟨d, hd, hentry⟩ := forall₂_at hes.flip he
    exact ⟨hentry.fresh, (List.getElem?_eq_some_iff.mp hd).1⟩
  have hbetween : a.Foreseen a.graph.headers a.libraries (· < plan.decls.length) (fun place shape =>
      ∀ d, plan.decls[place]? = some d → shape.unplaced = plan.shape (fun place => place) d) ∅
      (Finset.range plan.decls.length) :=
    { headers := rfl
      libraries := rfl
      untouched := fun he _ => ⟨(hfresh he).1.header_eq.symm, Finset.mem_range.mpr (hfresh he).2⟩
      done := by
        intro id e he hloaded
        rw [(hfresh he).1.unloaded] at hloaded
        cases hloaded }
  have hsize : (Finset.range plan.decls.length).card ≤ a.graph.size := by
    rw [Finset.card_range, ha.size, hes.length_eq]
  obtain ⟨b, hrun, hb, -, hsettled⟩ :=
    forM_load_foretold (Plan.foretold hes ha) order (fun id hid => (horder id).mp hid) hsize hbetween
  refine ⟨b, hrun, fun place => ?_⟩
  -- Headers do not change, so each declaration is still found under its number.
  have hheader : (b.graph.get? place).map Declaration.header = es[place]?.map Declaration.header := by
    rw [← Graph.get?_headers, hb.headers, Graph.get?_headers, ha.get?]
  cases hd : plan.decls[place]? with
  | none =>
    have hnone : es[place]? = none := by
      rw [List.getElem?_eq_none_iff] at hd ⊢
      rwa [← hes.length_eq]
    rw [hnone, Option.map_none, Option.map_eq_none_iff] at hheader
    rw [hheader]
    rfl
  | some d =>
    obtain ⟨entry, hget, hentry⟩ := forall₂_at hes hd
    rw [hget, Option.map_some, hentry.fresh.header_eq] at hheader
    obtain ⟨e, he, rfl⟩ := Option.map_eq_some_iff.mp hheader
    have hplace := (List.getElem?_eq_some_iff.mp hd).1
    have hloaded := hsettled place ((horder place).mpr hplace) e he
    have hshape := (hb.done he hloaded (Finset.notMem_empty place)).1 hplace d hd
    rw [he, Option.map_some, Option.map_some, Declaration.profile, Plan.profile, hloaded, hshape, ← hentry.kind,
      ← hentry.ns, ← hentry.name, ← hentry.arity]
    rfl

end TypeAtlas
