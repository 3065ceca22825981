import TypeAtlas.Proofs.Work

/-!
Two runs side by side. A regime relates the atlases of the two runs and says what is known
of a use once the first run has made it. Work tracks work under a regime when related
atlases give the same result or the same fault, one that may occur, and end related again. Everything that finds
out a shape tracks itself, whatever is told of the uses, as long as that tracks too; each
later theorem about resolution and loading chooses a regime and says what following a use
does.
-/

namespace TypeAtlas

namespace Work

/-- How two runs go side by side. -/
structure Regime where
  /-- What relates the atlases of the two runs. -/
  inStep : Atlas → Atlas → Prop
  /-- What is known of a use in the first atlas. -/
  known : Atlas → Use → Prop
  /-- What is known of a declaration in the first atlas before it is used. -/
  held : Atlas → DeclId → Prop := fun _ _ => True
  /-- What the runs may fail with. -/
  faults : Fault → Prop := fun _ => True

variable {α β : Type} {ρ : Regime} {given given' : List Use} {x : α} {f f' : α → Work β}

/-- Nothing in the result is a use. -/
def noUses : α → List Use := fun _ => []

/-- From atlases in step, of the first of which `before` holds, both give the same result or
the same fault, one that may occur, and end in step. What was known stays known, and `after`
holds of the result. -/
def TracksTo (ρ : Regime) (before : Atlas → Prop) (after : α → Atlas → Prop) (w w' : Work α) : Prop :=
  ∀ a a', ρ.inStep a a' → before a →
    ∃ b b', ρ.inStep b b' ∧ (∀ u, ρ.known a u → ρ.known b u) ∧
      ((∃ x, w.exec a = (.ok x, b) ∧ w'.exec a' = (.ok x, b') ∧ after x b) ∨
        ∃ fault, w.exec a = (.error fault, b) ∧ w'.exec a' = (.error fault, b') ∧ ρ.faults fault)

def Regime.knowsAll (ρ : Regime) (given : List Use) (a : Atlas) : Prop := ∀ u ∈ given, ρ.known a u

/-- Work that starts with the `given` uses known and makes the uses in its result known. -/
def Tracks (ρ : Regime) (given : List Use) (uses : α → List Use) (w w' : Work α) : Prop :=
  TracksTo ρ (ρ.knowsAll given) (fun x => ρ.knowsAll (uses x)) w w'

namespace TracksTo

variable {before : Atlas → Prop} {after : α → Atlas → Prop} {w w' : Work α} {after' : β → Atlas → Prop}

lemma pure (h : ∀ a, before a → after x a) : TracksTo ρ before after (Pure.pure x) (Pure.pure x) :=
  fun a a' hstep hbefore => ⟨a, a', hstep, fun _ hu => hu, .inl ⟨x, rfl, rfl, h a hbefore⟩⟩

lemma throw {fault : Fault} (hfault : ρ.faults fault) :
    TracksTo ρ before after (MonadExcept.throw fault) (MonadExcept.throw fault) :=
  fun a a' hstep _ => ⟨a, a', hstep, fun _ hu => hu, .inr ⟨fault, rfl, rfl, hfault⟩⟩

lemma imp {before' : Atlas → Prop} (h : TracksTo ρ before after w w')
    (hbefore : ∀ a, before' a → before a) : TracksTo ρ before' after w w' :=
  fun a a' hstep ha => h a a' hstep (hbefore a ha)

/-- Uses that are known at first are still known for what follows. -/
lemma bind (given : List Use) (h : TracksTo ρ before after w w') (hbefore : ∀ a, before a → ρ.knowsAll given a)
    (hf : ∀ x, TracksTo ρ (fun b => after x b ∧ ρ.knowsAll given b) after' (f x) (f' x)) :
    TracksTo ρ before after' (w >>= f) (w' >>= f') := by
  intro a a' hstep ha
  obtain ⟨b, b', hstep', hmono, ⟨x, hw, hw', hx⟩ | ⟨fault, hw, hw', hfault⟩⟩ := h a a' hstep ha
  · have hgiven : ρ.knowsAll given b := fun u hu => hmono u (hbefore a ha u hu)
    obtain ⟨c, c', hstep'', hmono', hres⟩ := hf x b b' hstep' ⟨hx, hgiven⟩
    refine ⟨c, c', hstep'', fun u hu => hmono' u (hmono u hu), ?_⟩
    simpa only [exec_bind, hw, hw'] using hres
  · exact ⟨b, b', hstep', hmono, .inr ⟨fault, by rw [exec_bind, hw], by rw [exec_bind, hw'], hfault⟩⟩

/-- Work that needs nothing, and what relies on its result alone. -/
lemma chain (h : TracksTo ρ (fun _ => True) after w w') (hf : ∀ x, TracksTo ρ (after x) after' (f x) (f' x)) :
    TracksTo ρ before after' (w >>= f) (w' >>= f') := by
  refine bind [] (h.imp fun _ _ => trivial) (fun _ _ u hu => ?_) fun x => (hf x).imp fun _ hb => hb.1
  cases hu

/-- What is read from atlases in step may differ, and what follows may rely on it. -/
lemma read {f f' : Atlas → Work β}
    (hf : ∀ a a', ρ.inStep a a' → TracksTo ρ (fun b => b = a ∧ before b) after' (f a) (f' a')) :
    TracksTo ρ before after' (get >>= f) (get >>= f') := by
  intro a a' hstep ha
  simpa only [exec_bind, exec_get] using hf a a' hstep a a' hstep ⟨rfl, ha⟩

lemma readGraph {f f' : Graph → Work β}
    (hf : ∀ a a', ρ.inStep a a' → TracksTo ρ (fun b => b = a ∧ before b) after' (f a.graph) (f' a'.graph)) :
    TracksTo ρ before after' (graph >>= f) (graph >>= f') := by
  intro a a' hstep ha
  simpa only [exec_bind, exec_graph] using hf a a' hstep a a' hstep ⟨rfl, ha⟩

end TracksTo

namespace Tracks

variable {uses : α → List Use} {uses' : β → List Use} {w w' : Work α}

lemma ofKnown (h : Tracks ρ given uses w w')
    (hknown : ∀ a, (∀ u ∈ given', ρ.known a u) → ∀ u ∈ given, ρ.known a u) :
    Tracks ρ given' uses w w' :=
  h.imp hknown

lemma weaken (h : Tracks ρ given uses w w') (hsub : given ⊆ given') :
    Tracks ρ given' uses w w' :=
  h.ofKnown fun _ hgiven u hu => hgiven u (hsub hu)

lemma ofNone (h : Tracks ρ [] uses w w') : Tracks ρ given uses w w' :=
  h.weaken (List.nil_subset given)

lemma pure (h : ∀ a, (∀ u ∈ given, ρ.known a u) → ∀ u ∈ uses x, ρ.known a u) :
    Tracks ρ given uses (Pure.pure x) (Pure.pure x) :=
  TracksTo.pure h

lemma pureSub (h : uses x ⊆ given) : Tracks ρ given uses (Pure.pure x) (Pure.pure x) :=
  pure fun _ hgiven u hu => hgiven u (h hu)

lemma throw {fault : Fault} (hfault : ρ.faults fault) :
    Tracks ρ given uses (MonadExcept.throw fault) (MonadExcept.throw fault) :=
  TracksTo.throw hfault

lemma bind (h : Tracks ρ given uses w w') (hf : ∀ x, Tracks ρ (uses x ++ given) uses' (f x) (f' x)) :
    Tracks ρ given uses' (w >>= f) (w' >>= f') := by
  refine TracksTo.bind given h (fun _ ha => ha) fun x => (hf x).imp ?_
  rintro b ⟨hx, hgiven⟩ u hu
  rcases List.mem_append.mp hu with hu | hu
  · exact hx u hu
  · exact hgiven u hu

/-- Work whose result holds no uses passes on what was given. -/
lemma bindPlain (h : Tracks ρ given noUses w w') (hf : ∀ x, Tracks ρ given uses' (f x) (f' x)) :
    Tracks ρ given uses' (w >>= f) (w' >>= f') :=
  h.bind fun x => hf x

lemma tryCatch {handle handle' : Fault → Work α} (h : Tracks ρ given uses w w')
    (hh : ∀ fault, ρ.faults fault → Tracks ρ given uses (handle fault) (handle' fault)) :
    Tracks ρ given uses (MonadExcept.tryCatch w handle) (MonadExcept.tryCatch w' handle') := by
  intro a a' hstep hgiven
  obtain ⟨b, b', hstep', hmono, ⟨x, hw, hw', hx⟩ | ⟨fault, hw, hw', hfault⟩⟩ := h a a' hstep hgiven
  · refine ⟨b, b', hstep', hmono, .inl ⟨x, ?_, ?_, hx⟩⟩
    · exact (exec_tryCatch w handle a).trans (by rw [hw])
    · exact (exec_tryCatch w' handle' a').trans (by rw [hw'])
  · obtain ⟨c, c', hstep'', hmono', hres⟩ :=
      hh fault hfault b b' hstep' fun u hu => hmono u (hgiven u hu)
    have hleft : exec (MonadExcept.tryCatch w handle) a = exec (handle fault) b :=
      (exec_tryCatch w handle a).trans (by rw [hw])
    have hright : exec (MonadExcept.tryCatch w' handle') a' = exec (handle' fault) b' :=
      (exec_tryCatch w' handle' a').trans (by rw [hw'])
    refine ⟨c, c', hstep'', fun u hu => hmono' u (hmono u hu), ?_⟩
    simpa only [hleft, hright] using hres

lemma check (hmalformed : ∀ cause, ρ.faults (.malformed cause)) (r : Except Malformed α) :
    Tracks ρ given noUses (check r) (check r) := by
  cases r with
  | ok x => exact pure fun _ _ u hu => by simp [noUses] at hu
  | error cause => exact throw (hmalformed cause)

/-- What follows a check may rely on what was checked. -/
lemma bindCheck (hmalformed : ∀ cause, ρ.faults (.malformed cause)) {r : Except Malformed α}
    (hf : ∀ x, r = .ok x → Tracks ρ given uses' (f x) (f' x)) :
    Tracks ρ given uses' (Work.check r >>= f) (Work.check r >>= f') := by
  cases r with
  | ok x => exact hf x rfl
  | error cause => exact throw (hmalformed cause)

lemma settle {r : Except Fault α} (h : ∀ fault, r = .error fault → ρ.faults fault) :
    Tracks ρ given noUses (settle r) (settle r) := by
  cases r with
  | ok x => exact pure fun _ _ u hu => by simp [noUses] at hu
  | error fault => exact throw (h fault rfl)

/-- What is read from atlases in step may differ; what is done with it has to track. -/
lemma read {f f' : Atlas → Work β}
    (hf : ∀ a a', ρ.inStep a a' → Tracks ρ given uses' (f a) (f' a')) :
    Tracks ρ given uses' (get >>= f) (get >>= f') := by
  intro a a' hstep hgiven
  simpa only [exec_bind, exec_get] using hf a a' hstep a a' hstep hgiven

lemma readGraph {f f' : Graph → Work β}
    (hf : ∀ a a', ρ.inStep a a' → Tracks ρ given uses' (f a.graph) (f' a'.graph)) :
    Tracks ρ given uses' (graph >>= f) (graph >>= f') := by
  intro a a' hstep hgiven
  simpa only [exec_bind, exec_graph] using hf a a' hstep a a' hstep hgiven

lemma mapM {xs : List α} (hf : ∀ x ∈ xs, Tracks ρ given uses' (f x) (f' x)) :
    Tracks ρ given (·.flatMap uses') (xs.mapM f) (xs.mapM f') := by
  induction xs with
  | nil => exact pureSub (by simp)
  | cons x xs ih =>
    simp only [List.mapM_cons]
    refine (hf x List.mem_cons_self).bind fun y => ?_
    have hrest := ih (List.forall_mem_cons.mp hf).2
    refine (hrest.weaken (List.subset_append_right _ _)).bind fun ys => ?_
    refine pureSub ?_
    simp only [List.flatMap_cons]
    intro u hu
    simp only [List.mem_append] at hu ⊢
    rcases hu with hu | hu
    · exact .inr (.inl hu)
    · exact .inl hu

end Tracks

end Work

end TypeAtlas
