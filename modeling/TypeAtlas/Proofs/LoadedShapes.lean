import TypeAtlas.Proofs.KnownShapes
import TypeAtlas.Proofs.LaterAtlases

/-!
Where the shape of a loaded declaration comes from. A load that fails is rolled back, so
between calls every declaration that counts as loaded has the shape that some run of
`Work.shapeOf` gave for it (`Atlas.explored_afterAll`). What is true of every result of such a
run, by the rules of `Work.Ensures`, is therefore true of every loaded declaration.
-/

namespace TypeAtlas

namespace Work

variable {α β γ ι : Type}

/-- Work whose result is as told, if it has one. -/
def Ensures (w : Work α) (Q : α → Prop) : Prop := ∀ a x b, w.exec a = (.ok x, b) → Q x

namespace Ensures

variable {w : Work α} {Q : α → Prop} {f : α → Work β}

lemma any (w : Work α) : Ensures w fun _ => True := fun _ _ _ _ => trivial

lemma pure {x : α} (h : Q x) : Ensures (Pure.pure x) Q := by
  intro a y b hrun
  obtain ⟨hresult, -⟩ := Prod.mk.inj hrun
  rw [← Except.ok.inj hresult]
  exact h

lemma bind {R : β → Prop} (h : Ensures w Q) (hf : ∀ x, Q x → Ensures (f x) R) : Ensures (w >>= f) R := by
  intro a y c hrun
  obtain ⟨x, b, hfirst, hrest⟩ := exec_bind_eq_ok hrun
  exact hf x (h a x b hfirst) b y c hrest

lemma check (r : Except Malformed α) : Ensures (check r) fun x => r = .ok x := by
  intro a x b hrun
  cases r with
  | ok y => exact congrArg Except.ok (Except.ok.inj (Prod.mk.inj hrun).1)
  | error cause => cases (Prod.mk.inj hrun).1

/-- What is known of a check is read off it. -/
lemma bind_check {r : Except Malformed α} {x : α} (h : r = .ok x) {R : β → Prop} (hf : Ensures (f x) R) :
    Ensures (Work.check r >>= f) R := by
  refine (check r).bind fun y hy => ?_
  rwa [← Except.ok.inj (h.symm.trans hy)]

/-- Results of a list one by one, each seen through `g`. -/
lemma mapM {g : β → γ} {h : ι → γ} {xs : List α} {ys : List ι}
    (hf : List.Forall₂ (fun x y => Ensures (f x) fun z => g z = h y) xs ys) :
    Ensures (xs.mapM f) fun zs => zs.map g = ys.map h := by
  induction hf with
  | nil => exact pure rfl
  | @cons x y xs ys hfirst _ ih =>
    rw [List.mapM_cons]
    refine hfirst.bind fun z hz => ih.bind fun zs hzs => pure ?_
    rw [List.map_cons, List.map_cons, hz, hzs]

lemma mapM_length (f : α → Work β) (xs : List α) :
    Ensures (xs.mapM f) fun zs => zs.length = xs.length := by
  induction xs with
  | nil => exact pure rfl
  | cons x xs ih =>
    rw [List.mapM_cons]
    refine (any (f x)).bind fun y _ => ih.bind fun ys hys => pure ?_
    rw [List.length_cons, List.length_cons, hys]

end Ensures

end Work

/-- The shape was found out for a declaration with this header. -/
def Declaration.Explored (d : Declaration) (shape : Shape) : Prop :=
  ∃ (e : Declaration) (found : Use → Work Unit) (a b : Atlas),
    e = { d with data := e.data, loaded := e.loaded, shape := e.shape } ∧
      (Work.shapeOf found e).exec a = (.ok shape, b)

lemma Declaration.durable_explored : Shape.Durable fun d shape _ => d.Explored shape where
  header := by
    rintro d e shape - hheader ⟨start, found, a, b, hstart, hrun⟩
    refine ⟨start, found, a, b, ?_, hrun⟩
    rw [hstart, hheader]
  later := fun _ h => h

/-- After any calls, every loaded declaration has a shape that was found out for it. -/
lemma Atlas.explored_afterAll (settings : Settings) (calls : List Call) :
    (({ settings } : Atlas).afterAll calls).Shows (fun d shape _ => d.Explored shape) [] := by
  refine Atlas.shows_afterAll Declaration.durable_explored (fun found hfound d => ⟨fun a ha => ?_, ?_⟩) settings calls
  · exact Work.shapeOf_keeps (fun library row => (Work.define_adds library row).keeps a)
      (fun use => (hfound use).keeps a) d a ⟨ha, .refl a⟩
  · exact fun a shape b _ hrun _ _ => ⟨d, found, a, b, rfl, hrun⟩

end TypeAtlas
