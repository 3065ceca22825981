import TypeAtlas.Proofs.Closure

/-!
What the result of work stands for later on. Work on an atlas only ever adds to it, so what is
said of a result by means of the names of declarations is true in every later atlas as well
(`Work.Leaves`). Main statement: what every way of finding out a shape leaves true of it, under
any load policy, is true of every loaded declaration after any calls (`Atlas.shows_afterAll`).
-/

namespace TypeAtlas

namespace Atlas.Precedes

variable {a b : Atlas}

lemma nameOf (h : a.Precedes b) {id : DeclId} (hid : id < a.graph.size) :
    b.graph.nameOf id = a.graph.nameOf id := by
  obtain ⟨d, hd⟩ := Graph.get?_of_lt_size hid
  obtain ⟨e, he, hheader⟩ := h.headers id d hd
  rw [Graph.nameOf, Graph.nameOf, hd, he, hheader]
  rfl

lemma addLibrary (a : Atlas) (library : Library) :
    a.Precedes { a with libraries := a.libraries ++ [library] } :=
  ⟨rfl, List.prefix_append _ _, fun _ d hd => ⟨d, hd, rfl⟩⟩

/-- What a use is called does not change once its declaration is registered. -/
lemma name (h : a.Precedes b) {use : Use} (huse : ∀ id, use.target? = some id → id < a.graph.size) :
    use.name b.graph.nameOf = use.name a.graph.nameOf := by
  cases use with
  | declared id args array => exact h.nameOf (huse id rfl)
  | builtin type array => rfl
  | param name position owner array => rfl

end Atlas.Precedes

namespace Work

variable {α β γ : Type} {f : α → Work β}

def Adds (w : Work α) : Prop :=
  ∀ a, a.graph.Indexed → (w.exec a).2.graph.Indexed ∧ a.Precedes (w.exec a).2

lemma Adds.keeps {w : Work α} (h : Adds w) (a : Atlas) :
    Keeps (fun b => b.graph.Indexed ∧ a.Precedes b) w := by
  rintro b ⟨hindexed, hprecedes⟩
  exact ⟨(h b hindexed).1, hprecedes.trans (h b hindexed).2⟩

lemma Adds.of_keeps {w : Work α} (hindexed : Keeps (·.graph.Indexed) w) (h : ∀ a : Atlas, Keeps a.Precedes w) :
    Adds w :=
  fun a ha => ⟨hindexed a ha, h a a (.refl a)⟩

lemma Adds.bind {w : Work α} (h : Adds w) (hf : ∀ x, Adds (f x)) : Adds (w >>= f) :=
  fun a ha => (h.keeps a).bind (fun x => (hf x).keeps a) a ⟨ha, .refl a⟩

lemma define_adds (library : Library) (row : Nat) : Adds (define library row) :=
  .of_keeps (define_keeps (fun d _ => register_keeps_indexed d) library row)
    fun a => define_keeps (fun d _ => register_keeps_precedes a d) library row

lemma loadWith_adds (fuel : Nat) (id : DeclId) : Adds (loadWith fuel id) :=
  .of_keeps (loadWith_keeps_indexed fuel id) fun a => loadWith_keeps_precedes a fuel id

lemma followWith_adds (fuel : Nat) (use : Use) : Adds (followWith (loadWith fuel) use) :=
  .of_keeps (followWith_keeps (fun id a ha => (loadWith_adds fuel id a ha).1) use)
    fun a => followWith_keeps (loadWith_keeps_precedes a fuel) use

/-- The regime of one run on its way from `a`. A use is known when all it leads to is
registered. -/
def Regime.placing (a : Atlas) : Regime where
  inStep b b' := b = b' ∧ b.graph.Indexed ∧ a.Precedes b
  known b use := ∀ target ∈ use.targets, target < b.graph.size
  held b id := id < b.graph.size

/-- Work that only adds goes in step with itself. -/
lemma Adds.tracksTo {w : Work α} (h : Adds w) {a : Atlas} {before : Atlas → Prop}
    {after : α → Atlas → Prop}
    (hafter : ∀ b x c, b.graph.Indexed → before b → b.Precedes c → w.exec b = (.ok x, c) → after x c) :
    TracksTo (Regime.placing a) before after w w := by
  rintro b _ ⟨rfl, hindexed, hprecedes⟩ hbefore
  obtain ⟨hindexed', hprecedes'⟩ := h b hindexed
  cases hrun : w.exec b with
  | mk r c =>
    rw [hrun] at hindexed' hprecedes'
    refine ⟨c, c, ⟨rfl, hindexed', hprecedes.trans hprecedes'⟩, ?_, ?_⟩
    · exact fun use hknown target htarget => hprecedes'.size_le (hknown target htarget)
    · cases r with
      | ok x => exact .inl ⟨x, rfl, rfl, hafter b x c hindexed hbefore hprecedes' hrun⟩
      | error fault => exact .inr ⟨fault, rfl, rfl, trivial⟩

lemma placing_steady (a : Atlas) : (Regime.placing a).Steady fun _ => True where
  toAnswers := .of_eq fun _ _ h => h.1
  heldLookup := fun h => h.2.1.lt_size_of_lookup
  present := fun _ _ _ => trivial
  define := fun library row _ => (define_adds library row).tracksTo
    fun _ _ _ hindexed _ _ hrun => lt_size_of_define hindexed hrun
  held := fun _ _ hknown id hid => hknown id (Use.mem_targets.mpr (.inl hid))
  toInherits := .of_targets fun _ _ => .rfl

lemma placing_followed (a : Atlas) {found : Use → Work Unit} (hfound : ∀ use, Adds (found use)) :
    Followed (Regime.placing a) found found := by
  refine fun use => (hfound use).tracksTo fun b _ c _ htells hprecedes _ target htarget => ?_
  exact hprecedes.size_le (Use.forall_targets htells.1 htells.2 target htarget)

/-- Work that only adds to an atlas, and what is true of its result in the atlas it ends in and
in every later one. -/
structure Leaves (w : Work α) (Q : α → Atlas → Prop) : Prop where
  adds : Adds w
  told : ∀ a x b, a.graph.Indexed → w.exec a = (.ok x, b) → ∀ c, b.Precedes c → Q x c

namespace Leaves

variable {w : Work α} {Q : α → Atlas → Prop} {R : β → Atlas → Prop}

lemma pure {x : α} (h : ∀ c, Q x c) : Leaves (Pure.pure x) Q where
  adds := fun a ha => ⟨ha, .refl a⟩
  told := by
    intro a y b _ hrun c _
    obtain ⟨hresult, -⟩ := Prod.mk.inj hrun
    rw [← Except.ok.inj hresult]
    exact h c

lemma throw (fault : Fault) : Leaves (throw fault) Q where
  adds := fun a ha => ⟨ha, .refl a⟩
  told := by
    intro a x b _ hrun
    cases hrun

lemma of_adds (h : Adds w) : Leaves w fun _ _ => True :=
  ⟨h, fun _ _ _ _ _ _ _ => trivial⟩

lemma imp {R : α → Atlas → Prop} (h : Leaves w Q) (himp : ∀ x c, Q x c → R x c) : Leaves w R :=
  ⟨h.adds, fun a x b ha hrun c hc => himp x c (h.told a x b ha hrun c hc)⟩

/-- What was left true of the first result holds wherever the second one is spoken of. -/
lemma bind (h : Leaves w Q) (hf : ∀ x, Leaves (f x) fun y c => Q x c → R y c) : Leaves (w >>= f) R where
  adds := h.adds.bind fun x => (hf x).adds
  told := by
    intro a y c ha hrun e he
    obtain ⟨x, b, hfirst, hrest⟩ := exec_bind_eq_ok hrun
    have hb := h.adds a ha
    rw [hfirst] at hb
    have hc := (hf x).adds b hb.1
    rw [hrest] at hc
    exact (hf x).told b y c hb.1 hrest e he (h.told a x b ha hfirst e (hc.2.trans he))

/-- What follows a check may rely on what was checked. -/
lemma bindCheck {r : Except Malformed α} (hf : ∀ x, r = .ok x → Leaves (f x) R) : Leaves (check r >>= f) R := by
  cases r with
  | ok x => exact hf x rfl
  | error cause =>
    refine ⟨fun a ha => ⟨ha, .refl a⟩, fun a y b _ hrun => ?_⟩
    cases (Prod.mk.inj hrun).1

/-- Results of a list one by one. -/
lemma mapM {R : α → β → Atlas → Prop} {xs : List α} (hf : ∀ x ∈ xs, Leaves (f x) (R x)) :
    Leaves (xs.mapM f) fun ys c => List.Forall₂ (R · · c) xs ys := by
  induction xs with
  | nil => exact pure fun _ => .nil
  | cons x xs ih =>
    rw [List.mapM_cons]
    refine (hf x List.mem_cons_self).bind fun y => ?_
    refine (ih (List.forall_mem_cons.mp hf).2).bind fun ys => ?_
    exact pure fun c hys hy => .cons hy hys

lemma mapM_mem {xs : List α} (hf : ∀ x ∈ xs, Leaves (f x) R) : Leaves (xs.mapM f) fun ys c => ∀ y ∈ ys, R y c := by
  refine (mapM hf).imp fun ys c h => ?_
  clear hf
  induction h with
  | nil => exact fun y hy => nomatch hy
  | cons hfirst _ ih => exact List.forall_mem_cons.mpr ⟨hfirst, ih⟩

end Leaves

/-- What is in an atlas is in all later ones. -/
lemma get_leaves : Leaves get fun a c => a.graph.Indexed ∧ a.Precedes c where
  adds := fun a ha => ⟨ha, .refl a⟩
  told := by
    intro a x b ha hrun c hc
    cases hrun
    exact ⟨ha, hc⟩

lemma graph_leaves : Leaves graph fun g c => g.Indexed ∧ ∀ id d, g.get? id = some d →
    ∃ e, c.graph.get? id = some e ∧ e = { d with data := e.data, loaded := e.loaded, shape := e.shape } :=
  get_leaves.bind fun _ => .pure fun _ h => ⟨h.1, h.2.headers⟩

/-- Work that goes in step with itself leaves its uses registered. -/
lemma Tracks.leaves {w : Work α} {uses : α → List Use}
    (h : ∀ a, Tracks (Regime.placing a) [] uses w w) :
    Leaves w fun x c => ∀ use ∈ uses x, ∀ target ∈ use.targets, target < c.graph.size where
  adds := by
    intro a ha
    obtain ⟨b, _, ⟨rfl, hindexed, hprecedes⟩, -, ⟨x, hrun, -, -⟩ | ⟨fault, hrun, -, -⟩⟩ :=
      h a a a ⟨rfl, ha, .refl a⟩ fun _ hu => nomatch hu
    · rw [hrun]
      exact ⟨hindexed, hprecedes⟩
    · rw [hrun]
      exact ⟨hindexed, hprecedes⟩
  told := by
    intro a x b ha hrun c hc use huse target htarget
    obtain ⟨e, _, -, -, ⟨y, hrun', -, hknown⟩ | ⟨fault, hrun', -, -⟩⟩ :=
      h a a a ⟨rfl, ha, .refl a⟩ fun _ hu => nomatch hu
    · obtain ⟨hresult, rfl⟩ := Prod.mk.inj (hrun.symm.trans hrun')
      cases hresult
      exact hc.size_le (hknown use huse target htarget)
    · cases (Prod.mk.inj (hrun.symm.trans hrun')).1

end Work

/-- Of every loaded declaration and its shape `Q` is true, apart from those that are just being
loaded. -/
def Atlas.Shows (Q : Declaration → Shape → Atlas → Prop) (underway : List DeclId) (a : Atlas) : Prop :=
  ∀ id d, a.graph.get? id = some d → d.loaded = true → id ∉ underway → Q d d.shape a

/-- Something that is said of a declaration by its header and is still true later on. -/
structure Shape.Durable (Q : Declaration → Shape → Atlas → Prop) : Prop where
  header : ∀ {d e shape a}, e = { d with data := e.data, loaded := e.loaded, shape := e.shape } →
    Q d shape a → Q e shape a
  later : ∀ {d shape a b}, a.Precedes b → Q d shape a → Q d shape b

namespace Atlas.Shows

variable {Q : Declaration → Shape → Atlas → Prop} {underway : List DeclId} {a b : Atlas} {id : DeclId}

/-- A step that changes nothing that is loaded. -/
lemma later (hQ : Shape.Durable Q) (h : a.Shows Q underway) (hprecedes : a.Precedes b)
    (hold : ∀ id e, b.graph.get? id = some e → e.loaded = true →
      ∃ d, a.graph.get? id = some d ∧ d.loaded = true ∧ d.shape = e.shape ∧
        e = { d with data := e.data, loaded := e.loaded, shape := e.shape }) : b.Shows Q underway := by
  intro id e he hloaded hid
  obtain ⟨d, hd, hloaded', hshape, hheader⟩ := hold id e he hloaded
  rw [← hshape]
  exact hQ.header hheader (hQ.later hprecedes (h id d hd hloaded' hid))

lemma mark (hQ : Shape.Durable Q) (h : a.Shows Q underway) (id : DeclId) :
    (a.flag id true).Shows Q (id :: underway) := by
  intro other e he hloaded hother
  obtain ⟨hne, hother⟩ := not_or.mp (List.mem_cons.not.mp hother)
  rw [get?_flag, if_neg (Ne.symm hne)] at he
  exact hQ.later (.flag a id true) (h other e he hloaded hother)

lemma rollBack (hQ : Shape.Durable Q) (h : a.Shows Q (id :: underway)) :
    (a.rollBack id).Shows Q underway := by
  intro other e he hloaded hother
  rw [get?_rollBack] at he
  split at he
  · obtain ⟨before, -, rfl⟩ := Option.map_eq_some_iff.mp he
    cases hloaded
  · rename_i hne
    refine hQ.later (.rollBack a id) (h other e he hloaded ?_)
    exact List.mem_cons.not.mpr (not_or.mpr ⟨Ne.symm hne, hother⟩)

lemma publish (hQ : Shape.Durable Q) (h : a.Shows Q (id :: underway)) {shape : Shape}
    (hshape : ∀ d, a.graph.get? id = some d → Q d shape (a.publish id shape)) :
    (a.publish id shape).Shows Q underway := by
  intro other e he hloaded hother
  rw [get?_publish] at he
  split at he
  · rename_i heq
    subst heq
    obtain ⟨before, hbefore, rfl⟩ := Option.map_eq_some_iff.mp he
    exact hQ.header rfl (hshape before hbefore)
  · rename_i hne
    refine hQ.later (.publish a id shape) (h other e he hloaded ?_)
    exact List.mem_cons.not.mpr (not_or.mpr ⟨Ne.symm hne, hother⟩)

end Atlas.Shows

namespace Work

variable {Q : Declaration → Shape → Atlas → Prop} {underway : List DeclId}

lemma register_keeps_shows (hQ : Shape.Durable Q) {d : Declaration} (hd : d.Fresh) :
    Keeps (Atlas.Shows Q underway) (register d) := by
  refine fun a ha => ha.later hQ (.register a d) fun id e he hloaded => ?_
  rcases Graph.get?_add_eq_some he with hold | ⟨-, rfl, -, -⟩
  · exact ⟨e, hold, hloaded, rfl, rfl⟩
  · rw [hd.unloaded] at hloaded
    cases hloaded

lemma setData_keeps_shows (hQ : Shape.Durable Q) (id : DeclId) (value : Datum) :
    Keeps (Atlas.Shows Q underway) (setData id value) := by
  refine setData_keeps fun a d data ha hd _ =>
    ha.later hQ (.modify a id (f := ({ · with data := data })) fun _ => rfl) fun other e he hloaded => ?_
  rw [Graph.get?_modify] at he
  split at he
  · obtain ⟨before, hbefore, rfl⟩ := Option.map_eq_some_iff.mp he
    exact ⟨before, hbefore, hloaded, rfl, rfl⟩
  · exact ⟨e, he, hloaded, rfl, rfl⟩

/-- A load leaves of its declaration what finding out its shape leaves, and so does every load
inside it. -/
lemma loadWith_keeps_shows (hQ : Shape.Durable Q)
    (hshape : ∀ found, (∀ use, Adds (found use)) → ∀ d, Leaves (shapeOf found d) (Q d)) (fuel : Nat)
    (underway : List DeclId) (id : DeclId) :
    Keeps (fun a => a.graph.Indexed ∧ a.graph.Settled ∧ a.Shows Q underway) (loadWith fuel id) := by
  induction fuel generalizing underway id with
  | zero => exact Keeps.throw _
  | succ fuel ih =>
    rintro a ⟨hindexed, hsettled, ha⟩
    refine ⟨(loadWith_adds (fuel + 1) id a hindexed).1,
      (loadWith_keeps_settledFrom a (fuel + 1) id a ⟨fun h => h, .refl a⟩).1 hsettled, ?_⟩
    rcases exec_loadWith_cases fuel id a with ⟨hexec, -⟩ | ⟨d, r, c, hd, hunloaded, hrun, -, hruns⟩
    · rwa [hexec]
    have hmarked : (a.flag id true).graph.Indexed :=
      hindexed.modify id (f := ({ · with loaded := true })) fun _ => rfl
    have hwork : Keeps (fun b => b.graph.Indexed ∧ b.graph.Settled ∧ b.Shows Q (id :: underway))
        (shapeOf (followWith (loadWith fuel)) d) := by
      refine shapeOf_keeps (define_keeps fun e he b hb => ?_) (followWith_keeps (ih _)) d
      exact ⟨register_keeps_indexed e b hb.1, hb.2.1.add he, register_keeps_shows hQ he b hb.2.2⟩
    have hleaves := hshape _ (followWith_adds fuel) d
    have hadds := hleaves.adds _ hmarked
    have hothers := hwork _ ⟨hmarked, settled_flag_true hsettled id, ha.mark hQ id⟩
    rw [hrun] at hadds hothers
    rw [hsettled.empty hd hunloaded] at hruns
    simp only [Shape.onto_empty] at hruns
    rcases hruns with ⟨shape, rfl, hexec⟩ | ⟨fault, -, hexec⟩ <;> rw [hexec]
    · refine hothers.2.2.publish hQ fun before hbefore => ?_
      obtain ⟨now, hnow, hheader⟩ := ((Atlas.Precedes.flag a id true).trans hadds.2).headers id d hd
      cases hbefore.symm.trans hnow
      exact hQ.header hheader (hleaves.told _ shape c hmarked hrun _ (.publish c id shape))
    · exact hothers.2.2.rollBack hQ

end Work

/-- After any calls, every loaded declaration has a shape as finding it out leaves it. -/
lemma Atlas.shows_afterAll {Q : Declaration → Shape → Atlas → Prop} (hQ : Shape.Durable Q)
    (hshape : ∀ found, (∀ use, Work.Adds (found use)) → ∀ d, Work.Leaves (Work.shapeOf found d) (Q d))
    (settings : Settings) (calls : List Call) : (({ settings } : Atlas).afterAll calls).Shows Q [] := by
  have hboth : (({ settings } : Atlas).afterAll calls).graph.Indexed ∧
      (({ settings } : Atlas).afterAll calls).graph.Settled ∧
      (({ settings } : Atlas).afterAll calls).Shows Q [] := by
    refine Atlas.afterAll_induction (P := fun a => a.graph.Indexed ∧ a.graph.Settled ∧ a.Shows Q []) (fun call _ => ?_)
      ⟨Graph.Indexed.initial, Graph.Settled.initial, fun id d hd => ?_⟩
    · refine Call.keeps (fun d hd a ha => ?_) (fun library a ha => ?_) (fun id value a ha => ?_)
        (fun id => ?_) call
      · exact ⟨Work.register_keeps_indexed d a ha.1, ha.2.1.add hd, Work.register_keeps_shows hQ hd a ha.2.2⟩
      · exact ⟨ha.1, ha.2.1, ha.2.2.later hQ (.addLibrary a library) fun id e he hloaded => ⟨e, he, hloaded, rfl, rfl⟩⟩
      · exact ⟨Work.setData_keeps_indexed id value a ha.1, Work.setData_keeps_settled id value a ha.2.1,
          Work.setData_keeps_shows hQ id value a ha.2.2⟩
      · exact Work.load_keeps fun fuel => Work.loadWith_keeps_shows hQ hshape fuel [] id
    · cases (Array.getElem?_eq_some_iff.mp hd).1
  exact hboth.2.2

end TypeAtlas
