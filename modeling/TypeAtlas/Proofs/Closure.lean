import TypeAtlas.Proofs.Capacity
import TypeAtlas.Proofs.LoadState
import TypeAtlas.Proofs.Permanence

/-!
What loaded declarations refer to where following a use loads its declaration. Main
statement: everything a loaded declaration refers to is registered, and it is loaded too,
unless its own load failed with the declaration loaded inside it.

A load that has begun counts as done for every load inside it. If it fails later, it is rolled
back, while the loads inside it have ended and stay. This is the only way in
which a loaded declaration comes to refer to one that is not loaded.
-/

namespace TypeAtlas

variable {target : DeclId} {d : Declaration}

namespace Atlas

/-- Everything that is at hand or registered in the first atlas is so in the second, where
only data, marks and shapes may differ. -/
structure Precedes (a b : Atlas) : Prop where
  settings : b.settings = a.settings
  libraries : a.libraries <+: b.libraries
  headers : ∀ id d, a.graph.get? id = some d → ∃ e, b.graph.get? id = some e ∧
    e = { d with data := e.data, loaded := e.loaded, shape := e.shape }

namespace Precedes

variable {a b c : Atlas}

lemma refl (a : Atlas) : a.Precedes a := ⟨rfl, List.prefix_rfl, fun _ d hd => ⟨d, hd, rfl⟩⟩

lemma trans (h : a.Precedes b) (h' : b.Precedes c) : a.Precedes c where
  settings := h'.settings.trans h.settings
  libraries := h.libraries.trans h'.libraries
  headers := by
    intro id d hd
    obtain ⟨e, he, hheader⟩ := h.headers id d hd
    obtain ⟨f, hf, hheader'⟩ := h'.headers id e he
    rw [hheader] at hheader'
    exact ⟨f, hf, hheader'⟩

lemma size_le (h : a.Precedes b) {id : DeclId} (hid : id < a.graph.size) : id < b.graph.size := by
  obtain ⟨d, hd⟩ := Graph.get?_of_lt_size hid
  obtain ⟨e, he, -⟩ := h.headers id d hd
  exact Graph.lt_size_of_get? he

lemma modify (a : Atlas) (id : DeclId) {f : Declaration → Declaration}
    (hf : ∀ d, f d = { d with data := (f d).data, loaded := (f d).loaded, shape := (f d).shape }) :
    a.Precedes { a with graph := a.graph.modify id f } where
  settings := rfl
  libraries := List.prefix_rfl
  headers := by
    intro other d hd
    rw [Graph.get?_modify, hd]
    split
    · exact ⟨f d, rfl, hf d⟩
    · exact ⟨d, rfl, rfl⟩

lemma flag (a : Atlas) (id : DeclId) (loaded : Bool) : a.Precedes (a.flag id loaded) :=
  modify a id fun _ => rfl

lemma rollBack (a : Atlas) (id : DeclId) : a.Precedes (a.rollBack id) := modify a id fun _ => rfl

lemma publish (a : Atlas) (id : DeclId) (shape : Shape) : a.Precedes (a.publish id shape) where
  settings := rfl
  libraries := List.prefix_rfl
  headers := by
    have hshape := modify a id (f := ({ · with shape := shape })) fun _ => rfl
    intro other d hd
    obtain ⟨e, he, hheader⟩ := hshape.headers other d hd
    exact ⟨e, (Graph.get?_recordReferences _ id other).trans he, hheader⟩

lemma register (a : Atlas) (d : Declaration) : a.Precedes { a with graph := (a.graph.add d).2 } where
  settings := rfl
  libraries := List.prefix_rfl
  headers := fun _ e he => ⟨e, (Graph.get?_add d (Graph.lt_size_of_get? he)).trans he, rfl⟩

end Precedes

lemma Lasts.isLoaded {a b : Atlas} (h : a.Lasts b) {id : DeclId}
    (hid : a.graph.isLoaded id = true) : b.graph.isLoaded id = true := by
  obtain ⟨d, hd, hloaded⟩ := Graph.isLoaded_iff.mp hid
  obtain ⟨e, he, hbecomes, -⟩ := h id d hd
  exact Graph.isLoaded_iff.mpr ⟨e, he, (hbecomes.loaded hloaded).1⟩

lemma Lasts.flag {a : Atlas} {id : DeclId} (hd : a.graph.get? id = some d) (hunloaded : d.loaded = false) :
    a.Lasts (a.flag id true) := by
  refine Lasts.ofMarked hd hunloaded (.refl _) (f := fun e => e) (fun _ => rfl) (fun other => ?_)
    fun _ _ => rfl
  simp

end Atlas

namespace Work

lemma register_keeps_precedes (a : Atlas) (d : Declaration) : Keeps a.Precedes (register d) :=
  fun b hb => hb.trans (.register b d)

lemma loadWith_keeps_precedes (a : Atlas) (fuel : Nat) (id : DeclId) :
    Keeps a.Precedes (loadWith fuel id) := by
  apply loadWith_keeps
  · exact define_keeps fun d _ => register_keeps_precedes a d
  · exact fun b id hb => hb.trans (.flag b id true)
  · exact fun b id hb => hb.trans (.rollBack b id)
  · exact fun b id shape hb => hb.trans (.publish b id shape)

end Work

namespace Atlas

/-- A load that fails, with another declaration loaded inside it. -/
structure FailsAround (start : Atlas) (target id : DeclId) (stop : Atlas) : Prop where
  indexed : start.graph.Indexed
  unloaded : start.graph.isLoaded target = false
  outside : start.graph.isLoaded id = false
  failed : ∃ fault, (Work.load target).exec start = (.error fault, stop)
  inside : stop.graph.isLoaded id = true

/-- On the way from `a` to `b` the load of `target` failed with `id` loaded inside it, which
has stayed as it was then. -/
def Broke (a b : Atlas) (id target : DeclId) : Prop :=
  ∃ start stop d e, a.Lasts start ∧ a.Precedes start ∧ start.FailsAround target id stop ∧
    stop.Precedes b ∧ stop.graph.get? id = some d ∧ b.graph.get? id = some e ∧ d.Becomes e

lemma Broke.mono {a b c : Atlas} {id : DeclId} (h : a.Broke b id target) (hprecedes : b.Precedes c)
    (hid : ∀ d, b.graph.get? id = some d → ∃ e, c.graph.get? id = some e ∧ d.Becomes e) : a.Broke c id target := by
  obtain ⟨start, stop, d, e, hlasts, hbefore, hfails, hafter, hd, he, hbecomes⟩ := h
  obtain ⟨f, hf, hbecomes'⟩ := hid e he
  exact ⟨start, stop, d, f, hlasts, hbefore, hfails, hafter.trans hprecedes, hd, hf,
    hbecomes.trans hbecomes'⟩

/-- Why a loaded declaration may refer to another: that one is loaded, or the reference is
excused from before `a`, or the load of the other failed since. -/
def Allows (excused : DeclId → DeclId → Prop) (a b : Atlas) (id target : DeclId) : Prop :=
  b.graph.isLoaded target = true ∨ excused id target ∨ a.Broke b id target

lemma Allows.mono {excused : DeclId → DeclId → Prop} {a b c : Atlas} {id : DeclId}
    (h : Allows excused a b id target) (hprecedes : b.Precedes c)
    (hid : ∀ d, b.graph.get? id = some d → ∃ e, c.graph.get? id = some e ∧ d.Becomes e)
    (hloaded : b.graph.isLoaded target = true → Allows excused a c id target) : Allows excused a c id target := by
  rcases h with htarget | hexcused | hbroke
  · exact hloaded htarget
  · exact .inr (.inl hexcused)
  · exact .inr (.inr (hbroke.mono hprecedes hid))

/-- An atlas on its way from `a`, where the loads of `underway` have begun. -/
structure Closing (excused : DeclId → DeclId → Prop) (a : Atlas) (underway : Finset DeclId)
    (b : Atlas) : Prop where
  indexed : b.graph.Indexed
  settled : b.graph.Settled
  lasts : a.Lasts b
  precedes : a.Precedes b
  closed : ∀ id d, b.graph.get? id = some d → d.loaded = true → id ∉ underway →
    ∀ target ∈ d.shape.references.map (·.2), target < b.graph.size ∧ Allows excused a b id target

namespace Closing

variable {excused : DeclId → DeclId → Prop} {a b c : Atlas} {underway underway' : Finset DeclId}
  {id : DeclId}

/-- A step that changes one declaration has to answer for that one alone: for what it refers
to and for what refers to it. -/
lemma change (id : DeclId) (h : Closing excused a underway b) (hindexed : c.graph.Indexed)
    (hsettled : c.graph.Settled) (hlasts : a.Lasts c) (hprecedes : b.Precedes c)
    (hsame : ∀ other, id ≠ other → c.graph.get? other = b.graph.get? other)
    (hunderway : ∀ other, id ≠ other → other ∉ underway' → other ∉ underway)
    (hself : ∀ d, c.graph.get? id = some d → d.loaded = true → id ∉ underway' →
      ∀ target ∈ d.shape.references.map (·.2), target < c.graph.size ∧ Allows excused a c id target)
    (hothers : ∀ other d, id ≠ other → b.graph.get? other = some d → d.loaded = true →
      other ∉ underway → id ∈ d.shape.references.map (·.2) → b.graph.isLoaded id = true →
        Allows excused a c other id) : Closing excused a underway' c where
  indexed := hindexed
  settled := hsettled
  lasts := hlasts
  precedes := h.precedes.trans hprecedes
  closed := by
    intro other d hd hloaded hother target htarget
    by_cases hid : id = other
    · subst hid
      exact hself d hd hloaded hother target htarget
    · have hold : b.graph.get? other = some d := (hsame other hid).symm.trans hd
      obtain ⟨hsize, hallows⟩ := h.closed other d hold hloaded (hunderway other hid hother) target htarget
      refine ⟨hprecedes.size_le hsize, hallows.mono hprecedes (fun e he => ?_) fun htarget' => ?_⟩
      · exact ⟨e, (hsame other hid).trans he, .refl e⟩
      · by_cases hid' : id = target
        · subst hid'
          exact hothers other d hid hold hloaded (hunderway other hid hother) htarget htarget'
        · have hkept : c.graph.isLoaded target = b.graph.isLoaded target := by
            unfold Graph.isLoaded
            rw [hsame target hid']
          exact .inl (hkept.trans htarget')

lemma flag (h : Closing excused a underway b) (hd : b.graph.get? id = some d) (hunloaded : d.loaded = false) :
    Closing excused a (insert id underway) (b.flag id true) := by
  refine h.change id (h.indexed.modify id fun _ => rfl) (Work.settled_flag_true h.settled id)
    (h.lasts.trans (Lasts.flag hd hunloaded)) (.flag b id true) ?_ ?_ ?_ ?_
  · intro other hne
    rw [get?_flag, if_neg hne]
  · intro other hne hother hmem
    exact hother (Finset.mem_insert_of_mem hmem)
  · intro e he hloaded hid
    exact absurd (Finset.mem_insert_self id underway) hid
  · intro other e hne he hloaded hother htarget hid
    exact .inl (isLoaded_flag hd)

lemma publish (h : Closing excused a (insert id underway) c) {shape : Shape}
    (hsettled : (c.publish id shape).graph.Settled) (hlasts : a.Lasts (c.publish id shape)) (hmarked : c.graph.isLoaded id = true)
    (hknown : ∀ target ∈ shape.references.map (·.2), c.graph.isLoaded target = true) :
    Closing excused a underway (c.publish id shape) := by
  have hindexed : (c.publish id shape).graph.Indexed :=
    (h.indexed.modify id (f := ({ · with shape := shape })) fun _ => rfl).recordReferences id
  refine h.change id hindexed hsettled hlasts (.publish c id shape) ?_ ?_ ?_ ?_
  · intro other hne
    rw [get?_publish, if_neg hne]
  · intro other hne hother hmem
    rcases Finset.mem_insert.mp hmem with heq | hmem
    · exact hne heq.symm
    · exact hother hmem
  · intro d hd hloaded hid target htarget
    rw [get?_publish, if_pos rfl] at hd
    obtain ⟨e, he, rfl⟩ := Option.map_eq_some_iff.mp hd
    have hloaded' := isLoaded_publish (hknown target htarget) id shape
    exact ⟨Graph.lt_size_of_isLoaded hloaded', .inl hloaded'⟩
  · intro other d hne hd hloaded hother htarget hid
    exact .inl (isLoaded_publish hmarked id shape)

/-- A load that fails leaves behind what was loaded inside it. -/
lemma fail (h : Closing excused a underway b) {fault : Fault}
    (hunloaded : b.graph.isLoaded id = false)
    (hrun : (Work.load id).exec b = (.error fault, c.rollBack id))
    (hc : Closing excused a (insert id underway) c) :
    Closing excused a underway (c.rollBack id) := by
  have hkept : b.Lasts (c.rollBack id) := by
    have hlasts := Work.loadWith_keeps_lasts b (b.capacity + 1) id b (.refl b)
    rwa [← Work.exec_load, hrun] at hlasts
  have hprecedes : b.Precedes (c.rollBack id) := by
    have hprecedes := Work.loadWith_keeps_precedes b (b.capacity + 1) id b (.refl b)
    rwa [← Work.exec_load, hrun] at hprecedes
  have hsettled := Work.load_keeps_settled id b h.settled
  rw [hrun] at hsettled
  refine hc.change id (hc.indexed.modify id fun _ => rfl) hsettled (h.lasts.trans hkept) (.rollBack c id)
    ?_ ?_ ?_ ?_
  · intro other hne
    rw [get?_rollBack, if_neg hne]
  · intro other hne hother hmem
    rcases Finset.mem_insert.mp hmem with heq | hmem
    · exact hne heq.symm
    · exact hother hmem
  · intro d hd hloaded hid target htarget
    rw [get?_rollBack, if_pos rfl] at hd
    obtain ⟨e, he, rfl⟩ := Option.map_eq_some_iff.mp hd
    cases hloaded
  · intro other d hne hd hloaded hother htarget hid
    have hd' : (c.rollBack id).graph.get? other = some d := by
      rw [get?_rollBack, if_neg hne, hd]
    have hother' : other ∉ underway := fun hmem => hother (Finset.mem_insert_of_mem hmem)
    by_cases hbefore : b.graph.isLoaded other = true
    · -- What was loaded before the load began cannot have relied on it.
      obtain ⟨e, he, heloaded⟩ := Graph.isLoaded_iff.mp hbefore
      obtain ⟨f, hf, hbecomes, -⟩ := hkept other e he
      cases hd'.symm.trans hf
      rw [(hbecomes.loaded heloaded).2] at htarget
      obtain ⟨-, hallows⟩ := h.closed other e he heloaded hother' id htarget
      refine hallows.mono hprecedes (fun e' he' => ?_) fun hloaded' => ?_
      · cases he.symm.trans he'
        exact ⟨d, hd', hbecomes⟩
      · rw [hunloaded] at hloaded'
        cases hloaded'
    · have hbefore : b.graph.isLoaded other = false := by simpa using hbefore
      refine .inr (.inr ⟨b, c.rollBack id, d, d, h.lasts, h.precedes, ?_, .refl _, hd', hd', .refl d⟩)
      exact ⟨h.indexed, hunloaded, hbefore, ⟨fault, hrun⟩, Graph.isLoaded_iff.mpr ⟨d, hd', hloaded⟩⟩

/-- A step that loads nothing. -/
lemma keep (h : Closing excused a underway b) (hindexed : c.graph.Indexed) (hsettled : c.graph.Settled)
    (hlasts : b.Lasts c)
    (hprecedes : b.Precedes c)
    (hold : ∀ id e, c.graph.get? id = some e → e.loaded = true →
      ∃ d, b.graph.get? id = some d ∧ d.loaded = true ∧ d.shape = e.shape) :
    Closing excused a underway c where
  indexed := hindexed
  settled := hsettled
  lasts := h.lasts.trans hlasts
  precedes := h.precedes.trans hprecedes
  closed := by
    intro id e he hloaded hid target htarget
    obtain ⟨d, hd, hloaded', hshape⟩ := hold id e he hloaded
    rw [← hshape] at htarget
    obtain ⟨hsize, hallows⟩ := h.closed id d hd hloaded' hid target htarget
    refine ⟨hprecedes.size_le hsize, hallows.mono hprecedes (fun f hf => ?_) fun htarget' => ?_⟩
    · obtain ⟨f', hf', hbecomes, -⟩ := hlasts id f hf
      exact ⟨f', hf', hbecomes⟩
    · exact .inl (hlasts.isLoaded htarget')

lemma register (h : Closing excused a underway b) (hd : d.Fresh) :
    Closing excused a underway { b with graph := (b.graph.add d).2 } := by
  apply h.keep (h.indexed.add d) (h.settled.add hd) (Work.register_keeps_lasts b d b (.refl b)) (.register b d)
  intro id e he hloaded
  rcases Graph.get?_add_eq_some he with hold | ⟨-, rfl, -, -⟩
  · exact ⟨e, hold, hloaded, rfl⟩
  · rw [hd.unloaded] at hloaded
    cases hloaded

lemma addLibrary (h : Closing excused a underway b) (library : Library) :
    Closing excused a underway { b with libraries := b.libraries ++ [library] } := by
  have hlasts : b.Lasts { b with libraries := b.libraries ++ [library] } :=
    fun _ d hd => ⟨d, hd, .refl d, fun _ => rfl⟩
  have hprecedes : b.Precedes { b with libraries := b.libraries ++ [library] } :=
    ⟨rfl, List.prefix_append _ _, fun _ d hd => ⟨d, hd, rfl⟩⟩
  exact h.keep h.indexed h.settled hlasts hprecedes fun id e he hloaded => ⟨e, he, hloaded, rfl⟩

end Closing

end Atlas

namespace Work

variable {excused : DeclId → DeclId → Prop} {a : Atlas} {underway : Finset DeclId}
  {keys : Finset Key} {n : Nat}

/-- The regime of one run on its way from `a`, in which loads have room. A use is known once
everything it leads to is loaded. -/
def Regime.closing (excused : DeclId → DeclId → Prop) (a : Atlas) (underway : Finset DeclId)
    (keys : Finset Key) (n : Nat) : Regime where
  inStep b b' := b = b' ∧ Atlas.Closing excused a underway b ∧ b.Room keys n
  known b use := ∀ target ∈ use.targets, b.graph.isLoaded target = true
  held b id := id < b.graph.size

lemma define_keeps_closing (library : Library) (row : Nat) :
    Keeps (Atlas.Closing excused a underway) (define library row) :=
  define_keeps (fun _ hd _ hb => hb.register hd) library row

lemma closing_steady :
    (Regime.closing excused a underway keys n).Steady (Library.DefinesIn · keys) where
  toAnswers := .of_eq fun _ _ h => h.1
  heldLookup := fun h => h.2.1.indexed.lt_size_of_lookup
  present := by
    rintro b _ ⟨rfl, -, hroom⟩
    exact hroom.libraries
  define := by
    rintro library row hlibrary b _ ⟨rfl, hb, hroom⟩ -
    have hc := define_keeps_closing library row b hb
    have hroom' := define_keeps_room hlibrary row b hroom
    have hlasts := define_keeps (fun d _ => register_keeps_lasts b d) library row b (.refl b)
    cases hrun : (define library row).exec b with
    | mk r c =>
      rw [hrun] at hc hroom' hlasts
      refine ⟨c, c, ⟨rfl, hc, hroom'⟩, ?_, ?_⟩
      · exact fun u hu target htarget => hlasts.isLoaded (hu target htarget)
      · cases r with
        | ok id => exact .inl ⟨id, rfl, rfl, lt_size_of_define hb.indexed hrun⟩
        | error fault => exact .inr ⟨fault, rfl, rfl, trivial⟩
  held := by
    intro b use hknown id hid
    exact Graph.lt_size_of_isLoaded (hknown id (Use.mem_targets.mpr (.inl hid)))
  toInherits := .of_targets fun _ _ => .rfl

/-- Loads along which an atlas stays on its way, and which leave their declaration loaded
unless they fail. -/
def KeepsClosing (excused : DeclId → DeclId → Prop) (a : Atlas) (underway : Finset DeclId)
    (keys : Finset Key) (n : Nat) (load : DeclId → Work Unit) : Prop :=
  ∀ id b, Atlas.Closing excused a underway b → b.Room keys n →
    ∃ r c, (load id).exec b = (r, c) ∧ Atlas.Closing excused a underway c ∧ c.Room keys n ∧
      b.Lasts c ∧ (r = .ok () → id < b.graph.size → c.graph.isLoaded id = true)

section

variable (hpolicy : a.settings.loadPolicy = .onResolve)

include hpolicy

lemma closing_followed {load : DeclId → Work Unit}
    (hload : KeepsClosing excused a underway keys n load) :
    Followed (Regime.closing excused a underway keys n) (followWith load) (followWith load) := by
  rintro use b _ ⟨rfl, hb, hroom⟩ ⟨hheld, hargs⟩
  rcases exec_followWith load use b with ⟨id, -, htarget, hrun⟩ | ⟨hnone, hrun⟩
  · obtain ⟨r, c, hexec, hc, hroom', hlasts, hid⟩ := hload id b hb hroom
    refine ⟨c, c, ⟨rfl, hc, hroom'⟩, fun u hu target hmem => hlasts.isLoaded (hu target hmem), ?_⟩
    rw [hrun, hexec]
    cases r with
    | error fault => exact .inr ⟨fault, rfl, rfl, trivial⟩
    | ok _ =>
      refine .inl ⟨(), rfl, rfl, Use.forall_targets (fun target hself => ?_) fun arg harg target hmem => ?_⟩
      · cases htarget.symm.trans hself
        exact hid rfl (hheld id htarget)
      · exact hlasts.isLoaded (hargs arg harg target hmem)
  · refine ⟨b, b, ⟨rfl, hb, hroom⟩, fun _ hu => hu, .inl ⟨(), hrun, hrun, ?_⟩⟩
    refine Use.forall_targets (fun target hself => ?_) hargs
    rcases hnone with hlazy | hnone
    · rw [hb.precedes.settings, hpolicy] at hlazy
      cases hlazy
    · cases hnone.symm.trans hself

/-- Finding out a shape leaves everything loaded that the shape refers to. -/
lemma exec_shapeOf_closing {fuel : Nat} (hload : KeepsClosing excused a underway keys n (loadWith fuel)) {b : Atlas}
    (hb : Atlas.Closing excused a underway b) (hroom : b.Room keys n)
    (hmodule : ∀ m row, d.provenance = .module m row → (⟨m, d.location⟩ : Library).DefinesIn keys) :
    ∃ r c, (shapeOf (followWith (loadWith fuel)) d).exec b = (r, c) ∧
      Atlas.Closing excused a underway c ∧ b.Lasts c ∧
      ∀ shape, r = .ok shape → ∀ target ∈ shape.references.map (·.2), c.graph.isLoaded target = true := by
  have hlasts := shapeOf_keeps (define_keeps fun d _ => register_keeps_lasts b d)
    (followWith_keeps fun id => loadWith_keeps_lasts b fuel id) d b (.refl b)
  have htracks : Tracks (Regime.closing excused a underway keys n) [] Shape.uses
      (shapeOf (followWith (loadWith fuel)) d) (shapeOf (followWith (loadWith fuel)) d) :=
    shapeOf_tracks closing_steady (closing_followed hpolicy hload) d hmodule
  obtain ⟨c, _, ⟨rfl, hc, -⟩, -, ⟨shape, hrun, -, huses⟩ | ⟨fault, hrun, -⟩⟩ :=
    htracks b b ⟨rfl, hb, hroom⟩ fun _ hu => by cases hu
  · rw [hrun] at hlasts
    refine ⟨.ok shape, c, hrun, hc, hlasts, fun found hfound => ?_⟩
    cases hfound
    exact Shape.forall_references huses
  · rw [hrun] at hlasts
    refine ⟨.error fault, c, hrun, hc, hlasts, fun shape hshape => ?_⟩
    cases hshape

/-- Loads that have room keep an atlas on its way. -/
lemma loadWith_keepsClosing (fuel : Nat) :
    KeepsClosing excused a underway keys fuel (loadWith fuel) := by
  induction fuel generalizing underway with
  | zero => exact fun id b hb hroom => absurd rfl hroom.ne_zero
  | succ fuel ih =>
    intro id b hb hroom
    have hlasts := loadWith_keeps_lasts b (fuel + 1) id b (.refl b)
    have hsettled := (loadWith_keeps_settledFrom b (fuel + 1) id b ⟨fun h => h, .refl b⟩).1 hb.settled
    have hroom' := loadWith_keeps_room (fuel + 1) id b hroom
    rcases exec_loadWith_cases fuel id b with ⟨hexec, hsettles⟩ | ⟨d, r, c, hd, hloaded, hrun, -, hruns⟩
    · refine ⟨.ok (), b, hexec, hb, hroom, .refl b, fun _ hid => ?_⟩
      obtain ⟨d, hd⟩ := Graph.get?_of_lt_size hid
      exact Graph.isLoaded_iff.mpr ⟨d, hd, hsettles d hd⟩
    have hmarked := Atlas.isLoaded_flag hd
    obtain ⟨_, _, hrun', hc, hkept, hknown⟩ := exec_shapeOf_closing hpolicy ih
      (hb.flag hd hloaded) (hroom.flag hd hloaded) fun m row => hroom.modules id d m row hd
    cases hrun.symm.trans hrun'
    rw [hb.settled.empty hd hloaded] at hruns
    simp only [Shape.onto_empty] at hruns
    rcases hruns with ⟨shape, rfl, hexec⟩ | ⟨fault, rfl, hexec⟩ <;> rw [hexec] at hlasts hroom' hsettled
    · have hdone := Atlas.isLoaded_publish (hkept.isLoaded hmarked) id shape
      refine ⟨.ok (), c.publish id shape, hexec, ?_, hroom', hlasts, fun _ _ => hdone⟩
      exact hc.publish hsettled (hb.lasts.trans hlasts) (hkept.isLoaded hmarked) (hknown shape rfl)
    · refine ⟨.error fault, c.rollBack id, hexec, ?_, hroom', hlasts, fun hok => ?_⟩
      · rw [exec_loadWith_eq_load (Nat.le_refl _) id hroom] at hexec
        exact hb.fail ((Graph.isLoaded_of_get? hd).trans hloaded) hexec hc
      · cases hok

lemma load_keeps_closing (id : DeclId) : Keeps (Atlas.Closing excused a ∅) (load id) := by
  intro b hb
  obtain ⟨keys, hroom, -⟩ := Atlas.exists_room hb.indexed
  obtain ⟨r, c, hrun, hc, -⟩ := loadWith_keepsClosing hpolicy (b.capacity + 1) id b hb hroom
  rw [exec_load, hrun]
  exact hc

end

lemma setData_keeps_closing (id : DeclId) (value : Datum) :
    Keeps (Atlas.Closing excused a underway) (setData id value) := by
  refine setData_keeps fun b d data hb hd hdata => ?_
  apply hb.keep
  · exact hb.indexed.modify id fun _ => rfl
  · exact hb.settled.modify (fun _ _ => rfl) fun e he => hb.settled.empty (d := e) he
  · exact .attach hd hdata
  · exact .modify b id fun _ => rfl
  · intro other e he hloaded
    rw [Graph.get?_modify] at he
    split at he
    · obtain ⟨found, hfound, rfl⟩ := Option.map_eq_some_iff.mp he
      exact ⟨found, hfound, hloaded, rfl⟩
    · exact ⟨e, he, hloaded, rfl⟩

end Work

lemma Call.keeps_closing {excused : DeclId → DeclId → Prop} {a : Atlas}
    (hpolicy : a.settings.loadPolicy = .onResolve) (call : Call) :
    Work.Keeps (Atlas.Closing excused a ∅) call.work := by
  apply Call.keeps
  · exact fun d hd b hb => hb.register hd
  · exact fun library b hb => hb.addLibrary library
  · exact Work.setData_keeps_closing
  · exact Work.load_keeps_closing hpolicy

namespace Atlas

/-- During one of the calls the load of `target` failed with `id` loaded inside it, and
`target` was not loaded when the call ended. -/
def BrokeIn (a : Atlas) (calls : List Call) (id target : DeclId) : Prop :=
  ∃ before call later, calls = before ++ call :: later ∧
    (a.afterAll before).Broke (a.afterAll (before ++ [call])) id target ∧
    (a.afterAll (before ++ [call])).graph.isLoaded target = false

lemma BrokeIn.append {a : Atlas} {calls : List Call} {id : DeclId} (h : a.BrokeIn calls id target)
    (more : List Call) : a.BrokeIn (calls ++ more) id target := by
  obtain ⟨before, call, later, rfl, hbroke, hunloaded⟩ := h
  refine ⟨before, call, later ++ more, ?_, hbroke, hunloaded⟩
  rw [List.append_assoc, List.cons_append]

lemma afterAll_append_one (a : Atlas) (calls : List Call) (call : Call) :
    a.afterAll (calls ++ [call]) = (a.afterAll calls).after call := by
  simp [afterAll]

/-- Between calls, what a loaded declaration refers to is loaded, or its load broke with the
declaration inside it. -/
def Closed (a : Atlas) (calls : List Call) : Prop :=
  ∀ id d, (a.afterAll calls).graph.get? id = some d → d.loaded = true →
    ∀ target ∈ d.shape.references.map (·.2), target < (a.afterAll calls).graph.size ∧
      ((a.afterAll calls).graph.isLoaded target = true ∨ a.BrokeIn calls id target)

lemma Closed.append_one {settings : Settings} (hpolicy : settings.loadPolicy = .onResolve)
    {calls : List Call} (h : ({ settings } : Atlas).Closed calls) (call : Call) :
    ({ settings } : Atlas).Closed (calls ++ [call]) := by
  have hstart : Closing (({ settings } : Atlas).BrokeIn calls) (({ settings } : Atlas).afterAll calls) ∅
      (({ settings } : Atlas).afterAll calls) := by
    refine ⟨indexed_afterAll settings calls, settled_afterAll settings calls, .refl _, .refl _,
      fun id d hd hloaded _ target htarget => ?_⟩
    obtain ⟨hsize, hallows⟩ := h id d hd hloaded target htarget
    exact ⟨hsize, hallows.imp_right .inl⟩
  have hstop := call.keeps_closing (by rwa [settings_afterAll]) _ hstart
  change Closing _ _ ∅ ((({ settings } : Atlas).afterAll calls).after call) at hstop
  rw [← afterAll_append_one] at hstop
  intro id d hd hloaded target htarget
  obtain ⟨hsize, hallows⟩ := hstop.closed id d hd hloaded (Finset.notMem_empty id) target htarget
  refine ⟨hsize, ?_⟩
  rcases hallows with htarget | hexcused | hbroke
  · exact .inl htarget
  · exact .inr (hexcused.append [call])
  · cases hstate : (({ settings } : Atlas).afterAll (calls ++ [call])).graph.isLoaded target with
    | true => exact .inl rfl
    | false => exact .inr ⟨calls, call, [], rfl, hbroke, hstate⟩

lemma closed_afterAll (settings : Settings) (hpolicy : settings.loadPolicy = .onResolve)
    (calls : List Call) : ({ settings } : Atlas).Closed calls := by
  induction calls using List.reverseRecOn with
  | nil =>
    intro id d hd
    have hnone : (({ settings } : Atlas).afterAll []).graph.get? id = none := rfl
    rw [hnone] at hd
    cases hd
  | append_singleton calls call ih => exact ih.append_one hpolicy call

/-- What a loaded declaration refers to is loaded, if its load fails from no atlas that one of
the calls may come to. -/
lemma Closed.isLoaded {a : Atlas} {calls : List Call} {id : DeclId} (h : a.Closed calls)
    (hd : (a.afterAll calls).graph.get? id = some d) (hloaded : d.loaded = true)
    (htarget : target ∈ d.shape.references.map (·.2))
    (hloads : ∀ before start, before <+: calls → (a.afterAll before).Precedes start →
      ∀ fault stop, (Work.load target).exec start ≠ (.error fault, stop)) :
    (a.afterAll calls).graph.isLoaded target = true := by
  obtain ⟨-, htarget | ⟨before, call, later, rfl, hbroke, -⟩⟩ := h id d hd hloaded target htarget
  · exact htarget
  · obtain ⟨start, stop, -, -, -, hprecedes, hfails, -⟩ := hbroke
    obtain ⟨fault, hfailed⟩ := hfails.failed
    exact absurd hfailed (hloads before start (List.prefix_append _ _) hprecedes fault stop)

/-- Where following a use loads its declaration, everything a loaded declaration refers to is
registered after any calls, each of which may fail. It is loaded too, unless during one of
the calls its own load failed with the declaration loaded inside it. -/
theorem loaded_refers_to_loaded (settings : Settings) (hpolicy : settings.loadPolicy = .onResolve)
    (calls : List Call) (id : DeclId) (d : Declaration)
    (hd : (({ settings } : Atlas).afterAll calls).graph.get? id = some d) (hloaded : d.loaded = true)
    (target : DeclId) (htarget : target ∈ d.shape.references.map (·.2)) :
    ∃ e, (({ settings } : Atlas).afterAll calls).graph.get? target = some e ∧
      (e.loaded = true ∨ ({ settings } : Atlas).BrokeIn calls id target) := by
  have hclosed := closed_afterAll settings hpolicy calls
  obtain ⟨hsize, hallows⟩ := hclosed id d hd hloaded target htarget
  obtain ⟨e, he⟩ := Graph.get?_of_lt_size hsize
  rw [Graph.isLoaded_of_get? he] at hallows
  exact ⟨e, he, hallows⟩

/-- Two types that refer to each other, where the first cannot be loaded. -/
def torn : Source.Document := .read "circle.cs"
  "class A : B \x7b Missing M \x7b get; \x7d \x7d class B : A \x7b \x7d"

/-- The load of the first fails and leaves the second loaded. -/
lemma load_torn :
    ((({ settings := { loadPolicy := .onResolve } } : Atlas).afterAll
      [.addDocument torn, .load 0]).graph.get? 1).map
        (fun d => (d.loaded, d.shape.references.map (·.2))) = some (true, [0]) ∧
    ((({ settings := { loadPolicy := .onResolve } } : Atlas).afterAll
      [.addDocument torn, .load 0]).graph.get? 0).map (·.loaded) = some false := by
  decide +kernel

/-- A loaded declaration may refer to one whose load failed. -/
theorem loaded_refers_to_failed :
    ∃ settings calls id d target e, settings.loadPolicy = .onResolve ∧
      (({ settings } : Atlas).afterAll calls).graph.get? id = some d ∧ d.loaded = true ∧
      target ∈ d.shape.references.map (·.2) ∧
      (({ settings } : Atlas).afterAll calls).graph.get? target = some e ∧ e.loaded = false := by
  obtain ⟨hsecond, hfirst⟩ := load_torn
  obtain ⟨d, hd, hvalues⟩ := Option.map_eq_some_iff.mp hsecond
  obtain ⟨e, he, hunloaded⟩ := Option.map_eq_some_iff.mp hfirst
  obtain ⟨hloaded, htargets⟩ := Prod.mk.inj hvalues
  refine ⟨_, _, 1, d, 0, e, rfl, hd, hloaded, ?_, he, hunloaded⟩
  rw [htargets]
  exact List.mem_singleton_self 0

/-- There the load of the first broke with the second inside it. -/
theorem loaded_refers_to_loaded_torn :
    ∃ d, (({ settings := { loadPolicy := .onResolve } } : Atlas).afterAll
        [.addDocument torn, .load 0]).graph.get? 1 = some d ∧
      d.loaded = true ∧ 0 ∈ d.shape.references.map (·.2) ∧
      ({ settings := { loadPolicy := .onResolve } } : Atlas).BrokeIn [.addDocument torn, .load 0] 1 0 := by
  obtain ⟨hsecond, hfirst⟩ := load_torn
  obtain ⟨d, hd, hvalues⟩ := Option.map_eq_some_iff.mp hsecond
  obtain ⟨hloaded, htargets⟩ := Prod.mk.inj hvalues
  have htarget : 0 ∈ d.shape.references.map (·.2) := by
    rw [htargets]
    exact List.mem_singleton_self 0
  obtain ⟨e, he, hallowed⟩ := loaded_refers_to_loaded { loadPolicy := .onResolve } rfl
    [.addDocument torn, .load 0] 1 d hd hloaded 0 htarget
  refine ⟨d, hd, hloaded, htarget, ?_⟩
  rcases hallowed with hok | hbroke
  · rw [he] at hfirst
    have hunloaded : e.loaded = false := Option.some.inj hfirst
    rw [hunloaded] at hok
    cases hok
  · exact hbroke

end Atlas

end TypeAtlas
