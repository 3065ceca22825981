import Mathlib.Data.List.Forall2
import TypeAtlas.Proofs.LoadPolicy
import TypeAtlas.Proofs.Plan

/-!
Loading declarations whose shapes are known in advance. If finding out the shape of each of
them succeeds in every atlas with the same headers, then so do loads in any order and under
either policy, and each declaration that was loaded has the shape that was foretold.
-/

namespace TypeAtlas

/-- Items are taken one by one together with what is planned for them. -/
lemma forall₂_of_mem {α β : Type} {R S : α → β → Prop} {xs : List α} {ys : List β}
    (h : List.Forall₂ R xs ys) (himp : ∀ x, ∀ y ∈ ys, R x y → S x y) : List.Forall₂ S xs ys := by
  induction h with
  | nil => exact .nil
  | @cons x y xs ys hfirst _ ih =>
    exact .cons (himp x y List.mem_cons_self hfirst)
      (ih fun x y hy => himp x y (List.mem_cons_of_mem _ hy))

lemma forall₂_at {α β : Type} {R : α → β → Prop} {xs : List α} {ys : List β} (h : List.Forall₂ R xs ys)
    {i : Nat} {x : α} (hx : xs[i]? = some x) : ∃ y, ys[i]? = some y ∧ R x y := by
  obtain ⟨hlt, rfl⟩ := List.getElem?_eq_some_iff.mp hx
  have hother : i < ys.length := h.length_eq ▸ hlt
  exact ⟨ys.get ⟨i, hother⟩, List.getElem?_eq_getElem hother, h.get hlt hother⟩

/-- Results for two lists of items that belong together. -/
lemma forall₂_through {α β γ : Type} {R : α → β → Prop} {A : α → γ → Prop} {B : β → γ → Prop} {xs : List α}
    {ys : List β} (h : List.Forall₂ R xs ys)
    (hex : ∀ x ∈ xs, ∀ y ∈ ys, R x y → ∃ z, A x z ∧ B y z) : ∃ zs, List.Forall₂ A xs zs ∧ List.Forall₂ B ys zs := by
  induction h with
  | nil => exact ⟨[], .nil, .nil⟩
  | @cons x y xs ys hfirst _ ih =>
    obtain ⟨z, hleft, hright⟩ := hex x List.mem_cons_self y List.mem_cons_self hfirst
    obtain ⟨zs, hlefts, hrights⟩ := ih fun x hx y hy =>
      hex x (List.mem_cons_of_mem _ hx) y (List.mem_cons_of_mem _ hy)
    exact ⟨z :: zs, .cons hleft hlefts, .cons hright hrights⟩

lemma mapM_ok {α β γ : Type} {f : α → Except Malformed β} {g : γ → β} {xs : List α} {ys : List γ}
    (h : List.Forall₂ (fun x y => f x = .ok (g y)) xs ys) : xs.mapM f = .ok (ys.map g) := by
  induction h with
  | nil => rfl
  | cons hfirst _ ih =>
    rw [List.mapM_cons, hfirst, ih]
    rfl

namespace Work

variable {α β γ ι : Type} {P : Atlas → Prop}

/-- Work that succeeds in every atlas with a property, keeps the property, and has a result
as told. -/
def Yields (P : Atlas → Prop) (w : Work α) (Q : α → Prop) : Prop :=
  ∀ a, P a → ∃ x b, w.exec a = (.ok x, b) ∧ P b ∧ Q x

namespace Yields

variable {w : Work α} {Q : α → Prop} {f : α → Work β}

lemma pure {x : α} (h : Q x) : Yields P (Pure.pure x) Q := fun a ha => ⟨x, a, rfl, ha, h⟩

lemma bind {R : β → Prop} (h : Yields P w Q) (hf : ∀ x, Q x → Yields P (f x) R) : Yields P (w >>= f) R := by
  intro a ha
  obtain ⟨x, b, hrun, hb, hx⟩ := h a ha
  obtain ⟨y, c, hrun', hc, hy⟩ := hf x hx b hb
  refine ⟨y, c, ?_, hc, hy⟩
  rw [exec_bind, hrun]
  exact hrun'

lemma bind_eq {R : β → Prop} {x : α} (h : Yields P w (· = x)) (hf : Yields P (f x) R) : Yields P (w >>= f) R :=
  h.bind fun _ heq => heq ▸ hf

lemma imp {R : α → Prop} (h : Yields P w Q) (hpost : ∀ x, Q x → R x) :
    Yields P w R := by
  intro a ha
  obtain ⟨x, b, hrun, hb, hx⟩ := h a ha
  exact ⟨x, b, hrun, hb, hpost x hx⟩

lemma check {r : Except Malformed α} {x : α} (h : r = .ok x) : Yields P (check r) (· = x) := by
  intro a ha
  rw [h]
  exact ⟨x, a, rfl, ha, rfl⟩

lemma settle {r : Except Fault α} {x : α} (h : r = .ok x) : Yields P (settle r) (· = x) := by
  intro a ha
  rw [h]
  exact ⟨x, a, rfl, ha, rfl⟩

lemma get : Yields P (MonadState.get : Work Atlas) P := fun a ha => ⟨a, a, rfl, ha, ha⟩

lemma graph : Yields P graph fun g => ∃ a, P a ∧ a.graph = g :=
  fun a ha => ⟨a.graph, a, rfl, ha, a, ha, rfl⟩

/-- Results of a list one by one, each seen through `g`. -/
lemma mapM {g : β → γ} {h : ι → γ} {xs : List α} {ys : List ι}
    (hf : List.Forall₂ (fun x y => Yields P (f x) fun z => g z = h y) xs ys) :
    Yields P (xs.mapM f) fun zs => zs.map g = ys.map h := by
  induction hf with
  | nil => exact pure rfl
  | @cons x y xs ys hfirst _ ih =>
    rw [List.mapM_cons]
    refine hfirst.bind fun z hz => ih.bind fun zs hzs => pure ?_
    rw [List.map_cons, List.map_cons, hz, hzs]

lemma mapM_eq {h : ι → β} {xs : List α} {ys : List ι}
    (hf : List.Forall₂ (fun x y => Yields P (f x) fun z => z = h y) xs ys) :
    Yields P (xs.mapM f) fun zs => zs = ys.map h := by
  refine (mapM (g := id) hf).imp fun zs hzs => ?_
  rwa [List.map_id] at hzs

end Yields

end Work

/-- What resolving the types of some declarations relies on, whatever happens between its steps: the
declarations are registered at a location, and all goes well with each use that is told of. -/
structure PlanDecl.Known (decls : List PlanDecl) (location : String) (ids : Nat → DeclId) (P : Atlas → Prop)
    (found : Use → Work Unit) : Prop where
  registered : ∀ {a place d}, P a → decls[place]? = some d →
    a.graph.findQualified ⟨d.fullName, d.arity, location⟩ = some (ids place)
  follows : ∀ use : Use,
    (∀ target, use.target? = some target → ∃ place < decls.length, target = ids place) →
    Work.Yields P (found use) fun _ => True

abbrev Plan.Known (plan : Plan) := PlanDecl.Known plan.decls

/-- A scope in which the parameters of a planned scope are known. -/
structure PlanScope.Seen (s : PlanScope) (scope : Scope) : Prop where
  typeParams : scope.typeParams = s.typeParams
  methodParams : scope.methodParams = s.methodParams

/-- What is foretold of some declarations in atlases with given headers and libraries: their
shapes are found out, whatever is told of the uses in them. -/
structure Foretold (headers : Graph) (libraries : List Library) (hosted : DeclId → Prop)
    (want : DeclId → Shape → Prop) : Prop where
  yields : ∀ {P : Atlas → Prop} {found : Use → Work Unit} {id : DeclId} {d : Declaration},
    hosted id → headers.get? id = some d →
    (∀ a, P a → a.graph.headers = headers ∧ a.libraries = libraries) →
    (∀ use : Use, (∀ target, use.target? = some target → hosted target) →
      Work.Yields P (found use) fun _ => True) →
    Work.Yields P (Work.shapeOf found d) (want id)

/-- An atlas between loads, in which what is loaded has the shape that was foretold. -/
structure Atlas.Foreseen (headers : Graph) (libraries : List Library) (hosted : DeclId → Prop)
    (want : DeclId → Shape → Prop) (underway pending : Finset DeclId) (b : Atlas) : Prop
    extends b.Between (fun _ d => d = d.header) (fun id shape => hosted id → want id shape) (fun _ => []) underway
      pending where
  headers : b.graph.headers = headers
  libraries : b.libraries = libraries

namespace Work

variable {headers : Graph} {libraries : List Library} {hosted : DeclId → Prop}
  {want : DeclId → Shape → Prop} {underway pending : Finset DeclId} {b : Atlas}

/-- A load of a declaration whose shape is foretold succeeds, if more loads may nest than are
pending, and what was loaded stays loaded. -/
lemma loadWith_foretold (hforetold : Foretold headers libraries hosted want) {fuel : Nat}
    (hfuel : pending.card < fuel) {id : DeclId} (hid : hosted id)
    (hb : b.Foreseen headers libraries hosted want underway pending) :
    ∃ c, (loadWith fuel id).exec b = (.ok (), c) ∧
      c.Foreseen headers libraries hosted want underway pending ∧
      (∀ other, b.graph.Settles other → c.graph.Settles other) ∧ c.graph.Settles id := by
  induction fuel generalizing underway pending id b with
  | zero => omega
  | succ fuel ih =>
    rcases exec_loadWith_cases fuel id b with ⟨hexec, hsettles⟩ | ⟨d, r, c, hd, hloaded, hrun, -, hruns⟩
    · exact ⟨b, hexec, hb, fun _ h => h, hsettles⟩
    have hsame := (hb.untouched hd hloaded).1
    have hempty : d.shape = {} := congrArg Declaration.shape hsame
    rw [hempty] at hruns
    simp only [Shape.onto_empty] at hruns
    have hheader : headers.get? id = some d := by
      rw [← hb.headers, Graph.get?_headers, hd, Option.map_some, ← hsame]
    have hcard := hb.card_lt hd hloaded hfuel
    have hflag : (b.flag id true).Foreseen headers libraries hosted want (insert id underway) (pending.erase id) :=
      ⟨hb.toBetween.flag id, (b.headers_flag id true).trans hb.headers, hb.libraries⟩
    -- What is loaded when the shape begins to be found out stays loaded until it is.
    let P : Atlas → Prop := fun c =>
      c.Foreseen headers libraries hosted want (insert id underway) (pending.erase id) ∧
        ∀ other, (b.flag id true).graph.Settles other → c.graph.Settles other
    have hfollow : ∀ use : Use, (∀ target, use.target? = some target → hosted target) →
        Yields P (followWith (loadWith fuel) use) fun _ => True := by
      intro use huse c hc
      rcases exec_followWith (loadWith fuel) use c with ⟨target, -, htarget, hrun⟩ | ⟨-, hrun⟩
      · obtain ⟨e, hexec, he, hmono, -⟩ := ih hcard (huse target htarget) hc.1
        exact ⟨(), e, hrun.trans hexec, ⟨he, fun other h => hmono other (hc.2 other h)⟩, trivial⟩
      · exact ⟨(), c, hrun, hc, trivial⟩
    obtain ⟨shape, _, hrun', hc, hshape⟩ := hforetold.yields hid hheader
      (fun c hc => ⟨hc.1.headers, hc.1.libraries⟩) hfollow (b.flag id true)
      ⟨hflag, fun _ h => h⟩
    cases hrun.symm.trans hrun'
    have hsettles : c.graph.Settles id := hc.2 id (b.settles_flag_self id)
    obtain ⟨_, ⟨⟩, hexec⟩ | ⟨_, ⟨⟩, -⟩ := hruns
    have hpublished := hc.1.toBetween.publish hsettles (fun _ => hshape) fun _ hmem => nomatch hmem
    refine ⟨_, hexec, ⟨hpublished, (c.headers_publish id shape).trans hc.1.headers, hc.1.libraries⟩, fun other h => ?_, ?_⟩
    · exact Atlas.settles_publish (hc.2 other (Atlas.settles_flag h)) shape
    · exact Atlas.settles_publish hsettles shape

/-- Loads one after another succeed and leave their declarations loaded. -/
lemma forM_load_foretold (hforetold : Foretold headers libraries hosted want) (ids : List DeclId)
    (hids : ∀ id ∈ ids, hosted id) (hsize : pending.card ≤ b.graph.size)
    (hb : b.Foreseen headers libraries hosted want underway pending) :
    ∃ c, (ids.forM load).exec b = (.ok (), c) ∧
      c.Foreseen headers libraries hosted want underway pending ∧
      (∀ other, b.graph.Settles other → c.graph.Settles other) ∧ ∀ id ∈ ids, c.graph.Settles id := by
  induction ids generalizing b with
  | nil => exact ⟨b, rfl, hb, fun _ h => h, fun _ hmem => by cases hmem⟩
  | cons id ids ih =>
    have hfuel : pending.card < b.capacity + 1 := by
      have hle := b.size_le_capacity
      omega
    obtain ⟨c, hrun, hc, hmono, hid⟩ := loadWith_foretold hforetold hfuel (hids id List.mem_cons_self) hb
    have hsame : c.graph.size = b.graph.size := by
      have hheaders := congrArg Graph.size (hc.headers.trans hb.headers.symm)
      simpa [Graph.size, Graph.headers] using hheaders
    obtain ⟨e, hrun', he, hmono', hrest⟩ :=
      ih (List.forall_mem_cons.mp hids).2 (hsame ▸ hsize) hc
    refine ⟨e, ?_, he, fun other h => hmono' other (hmono other h), fun other hmem => ?_⟩
    · change exec (load id >>= fun _ => ids.forM load) b = _
      rw [exec_bind, exec_load, hrun]
      exact hrun'
    · rcases List.mem_cons.mp hmem with rfl | hmem
      · exact hmono' other hid
      · exact hrest other hmem

end Work

end TypeAtlas
