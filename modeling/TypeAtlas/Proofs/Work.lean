import Mathlib.Tactic.Lemma
import TypeAtlas.Atlas.Load

/-!
Running work on an atlas. A run gives a result or a fault together with the atlas it
leaves behind; the equations here say what each way of putting work together does, so that
no later proof opens the monad.
-/

namespace TypeAtlas.Work

variable {α β : Type} {f : α → Work β}

def exec (w : Work α) (a : Atlas) : Except Fault α × Atlas := w.run.run a

@[simp] lemma exec_pure (x : α) (a : Atlas) : exec (pure x) a = (.ok x, a) := rfl

@[simp] lemma exec_throw (fault : Fault) (a : Atlas) :
    exec (throw fault : Work α) a = (.error fault, a) := rfl

lemma exec_bind (w : Work α) (f : α → Work β) (a : Atlas) :
    exec (w >>= f) a = match exec w a with
      | (.ok x, b) => exec (f x) b
      | (.error fault, b) => (.error fault, b) := by
  simp only [exec, ExceptT.run_bind, StateT.run_bind]
  cases StateT.run (ExceptT.run w) a with
  | mk r b => cases r <;> rfl

lemma exec_bind_eq_ok {w : Work α} {a c : Atlas} {y : β} (h : (w >>= f).exec a = (.ok y, c)) :
    ∃ x b, w.exec a = (.ok x, b) ∧ (f x).exec b = (.ok y, c) := by
  rw [exec_bind] at h
  cases hw : w.exec a with
  | mk r b =>
    rw [hw] at h
    cases r with
    | ok x => exact ⟨x, b, rfl, h⟩
    | error fault => cases h

lemma exec_bind_eq_error {w : Work α} {a c : Atlas} {fault : Fault} (h : (w >>= f).exec a = (.error fault, c)) :
    w.exec a = (.error fault, c) ∨
      ∃ x b, w.exec a = (.ok x, b) ∧ (f x).exec b = (.error fault, c) := by
  rw [exec_bind] at h
  cases hw : w.exec a with
  | mk r b =>
    rw [hw] at h
    cases r with
    | ok x => exact .inr ⟨x, b, rfl, h⟩
    | error raised =>
      cases h
      exact .inl rfl

lemma exec_tryCatch (w : Work α) (handle : Fault → Work α) (a : Atlas) :
    exec (tryCatch w handle) a = match exec w a with
      | (.ok x, b) => (.ok x, b)
      | (.error fault, b) => exec (handle fault) b := by
  change StateT.run (ExceptT.run (ExceptT.tryCatch w handle)) a = _
  simp only [exec, ExceptT.tryCatch, ExceptT.run_mk, StateT.run_bind]
  cases hrun : StateT.run w a with
  | mk r b => cases r <;> simp [ExceptT.run, hrun] <;> rfl

@[simp] lemma exec_get (a : Atlas) : exec (get : Work Atlas) a = (.ok a, a) := rfl

@[simp] lemma exec_modify (f : Atlas → Atlas) (a : Atlas) :
    exec (modify f : Work Unit) a = (.ok (), f a) := rfl

@[simp] lemma exec_graph (a : Atlas) : exec graph a = (.ok a.graph, a) := rfl

@[simp] lemma exec_setGraph (g : Graph) (a : Atlas) :
    exec (setGraph g) a = (.ok (), { a with graph := g }) := rfl

@[simp] lemma exec_register (d : Declaration) (a : Atlas) :
    exec (register d) a = (.ok (a.graph.add d).1, { a with graph := (a.graph.add d).2 }) := rfl

@[simp] lemma exec_change (id : DeclId) (f : Declaration → Declaration) (a : Atlas) :
    exec (change id f) a = (.ok (), { a with graph := a.graph.modify id f }) := rfl

@[simp] lemma exec_check_ok (x : α) (a : Atlas) : exec (check (.ok x)) a = (.ok x, a) := rfl

@[simp] lemma exec_check_error (cause : Malformed) (a : Atlas) :
    exec (check (.error cause) : Work α) a = (.error (.malformed cause), a) := rfl

@[simp] lemma exec_settle_ok (x : α) (a : Atlas) : exec (settle (.ok x)) a = (.ok x, a) := rfl

@[simp] lemma exec_settle_error (fault : Fault) (a : Atlas) :
    exec (settle (.error fault) : Work α) a = (.error fault, a) := rfl

/-- Work that leads from atlases with a property to atlases with it, whether it fails or
not. -/
def Keeps (P : Atlas → Prop) (w : Work α) : Prop := ∀ a, P a → P (w.exec a).2

namespace Keeps

variable {P : Atlas → Prop} {w : Work α}

lemma pure (x : α) : Keeps P (Pure.pure x) := fun _ ha => ha

lemma throw (fault : Fault) : Keeps P (MonadExcept.throw fault : Work α) := fun _ ha => ha

lemma bind (h : Keeps P w) (hf : ∀ x, Keeps P (f x)) : Keeps P (w >>= f) := by
  intro a ha
  have hw := h a ha
  rw [exec_bind]
  cases hrun : w.exec a with
  | mk r b =>
    rw [hrun] at hw
    cases r with
    | ok x => exact hf x b hw
    | error fault => exact hw

lemma get : Keeps P (MonadState.get : Work Atlas) := fun _ ha => ha

lemma graph : Keeps P graph := fun _ ha => ha

lemma mapM {xs : List α} (hf : ∀ x ∈ xs, Keeps P (f x)) : Keeps P (xs.mapM f) := by
  induction xs with
  | nil => exact pure []
  | cons x xs ih =>
    simp only [List.mapM_cons]
    refine (hf x List.mem_cons_self).bind fun y => ?_
    exact (ih (List.forall_mem_cons.mp hf).2).bind fun ys => pure (y :: ys)

lemma forM {f : α → Work PUnit} {xs : List α} (hf : ∀ x ∈ xs, Keeps P (f x)) :
    Keeps P (xs.forM f) := by
  induction xs with
  | nil => exact pure PUnit.unit
  | cons x xs ih =>
    change Keeps P (f x >>= fun _ => xs.forM f)
    exact (hf x List.mem_cons_self).bind fun _ => ih (List.forall_mem_cons.mp hf).2

end Keeps

end TypeAtlas.Work
