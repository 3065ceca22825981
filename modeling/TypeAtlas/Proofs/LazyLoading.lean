import TypeAtlas.Metadata.Builder
import TypeAtlas.Proofs.Indexing
import TypeAtlas.Proofs.LoadState

/-!
One load where following a use loads nothing. The load draws on the modules that were made
available and on the module of its own declaration: what it meets for the first time it
registers, and beyond that it touches no declaration but its own, of which it publishes one part
after another. Main statement: a load that fails takes back what it has published and leaves every
declaration and every edge as it was, and what it registered is unloaded.
-/

namespace TypeAtlas

namespace Graph

/-- Register some declarations, one after another. -/
def addAll (g : Graph) (added : List Declaration) : Graph := added.foldl (fun g d => (g.add d).2) g

end Graph

namespace Atlas

/-- The libraries that a load of the declaration can draw on: those that were made available,
and the module that defines the declaration. -/
def AtHand (a : Atlas) (d : Declaration) (library : Library) : Prop :=
  library ∈ a.libraries ∨
    ∃ row, d.provenance = .module library.module row ∧ d.location = library.location

/-- From an atlas to another by registering definitions of libraries at hand, each under a key
that was free. -/
inductive Supplied (atHand : Library → Prop) (a : Atlas) : List Declaration → Atlas → Prop
  | start : Supplied atHand a [] a
  | more {added : List Declaration} {b : Atlas} {library : Library} {row : Nat} {d : Declaration}
      (h : Supplied atHand a added b) (hlibrary : atHand library)
      (hd : Declaration.ofDefinition none library row = .ok d)
      (hfree : b.graph.findQualified d.key = none) :
      Supplied atHand a (added ++ [d]) { b with graph := (b.graph.add d).2 }

namespace Supplied

variable {atHand : Library → Prop} {a b c : Atlas} {added : List Declaration} {id : DeclId}
  {d : Declaration}

section

variable (h : a.Supplied atHand added b)

include h

lemma eq_addAll : b = { a with graph := a.graph.addAll added } := by
  induction h with
  | start => rfl
  | more h _ _ _ ih =>
    rw [ih]
    simp [Graph.addAll]

lemma declarations : b.graph.declarations = a.graph.declarations ++ added.toArray := by
  induction h with
  | start => simp
  | more h _ _ hfree ih => simp [Graph.add_of_free hfree, ih]

lemma edges : b.graph.edges = a.graph.edges := by
  induction h with
  | start => rfl
  | more h _ _ _ ih => exact (Graph.edges_add _ _).trans ih

lemma settings : b.settings = a.settings := by
  rw [h.eq_addAll]

lemma libraries : b.libraries = a.libraries := by
  rw [h.eq_addAll]

lemma indexed (ha : a.graph.Indexed) : b.graph.Indexed := by
  induction h with
  | start => exact ha
  | more h _ _ _ ih => exact ih.add _

lemma settled (ha : a.graph.Settled) : b.graph.Settled := by
  induction h with
  | start => exact ha
  | more h _ hd _ ih => exact ih.add (Declaration.fresh_ofDefinition hd)

lemma defined (hmem : d ∈ added) :
    ∃ library row, atHand library ∧ Declaration.ofDefinition none library row = .ok d := by
  induction h with
  | start => cases hmem
  | more h hlibrary hd _ ih =>
    rcases List.mem_append.mp hmem with hold | hnew
    · exact ih hold
    · obtain rfl := List.mem_singleton.mp hnew
      exact ⟨_, _, hlibrary, hd⟩

lemma size_eq : b.graph.size = a.graph.size + added.length := by
  simp [Graph.size, h.declarations]

lemma get?_of_lt (hid : id < a.graph.size) : b.graph.get? id = a.graph.get? id := by
  have hbound : id < a.graph.declarations.size := hid
  simp [Graph.get?, h.declarations, Array.getElem?_append_left hbound]

/-- A declaration was there before, or it is one of those that were registered. -/
lemma get?_cases (hd : b.graph.get? id = some d) :
    a.graph.get? id = some d ∨ a.graph.size ≤ id ∧ d ∈ added := by
  by_cases hid : id < a.graph.size
  · rw [h.get?_of_lt hid] at hd
    exact .inl hd
  · have hbound : a.graph.declarations.size ≤ id := Nat.not_lt.mp hid
    rw [Graph.get?, h.declarations, Array.getElem?_append_right hbound] at hd
    refine .inr ⟨hbound, ?_⟩
    simpa using Array.mem_of_getElem? hd

end

/-- The mark of a declaration makes no difference to what can be registered. -/
lemma unmark (h : (a.flag id true).Supplied atHand added c) (hid : id < a.graph.size) :
    ∃ b, a.Supplied atHand added b ∧ c = b.flag id true := by
  induction h with
  | start => exact ⟨a, .start, rfl⟩
  | more h hlibrary hd hfree ih =>
    obtain ⟨b, hb, rfl⟩ := ih
    have hbound : id < b.graph.size := by
      rw [hb.size_eq]
      exact Nat.lt_add_right _ hid
    refine ⟨_, hb.more hlibrary hd hfree, ?_⟩
    simp [flag, Graph.add_modify hbound]

end Supplied

end Atlas

namespace Work

variable {atHand : Library → Prop} {a b : Atlas}

lemma malformed_of_define {library : Library} {row : Nat} {fault : Fault}
    (h : (define library row).exec a = (.error fault, b)) : ∃ cause, fault = .malformed cause := by
  rw [exec_define] at h
  cases hkey : library.markedKey row with
  | error cause =>
    rw [hkey] at h
    cases h
    exact ⟨cause, rfl⟩
  | ok key =>
    rw [hkey] at h
    dsimp only at h
    cases hfound : a.graph.findQualified key with
    | some id =>
      rw [hfound] at h
      cases h
    | none =>
      rw [hfound] at h
      cases hd : Declaration.ofDefinition none library row with
      | error cause =>
        rw [hd] at h
        cases h
        exact ⟨cause, rfl⟩
      | ok d =>
        rw [hd] at h
        cases h

/-- The regime of one run that registers definitions of libraries at hand. A use is known when
all it leads to is registered, and only chains of rows that lead back to themselves are
endless. -/
def Regime.supplying (atHand : Library → Prop) (a : Atlas) : Regime where
  inStep b b' := b = b' ∧ b.graph.Indexed ∧ ∃ added, a.Supplied atHand added b
  known b use := ∀ target ∈ use.targets, target < b.graph.size
  held b id := id < b.graph.size
  faults fault := (∀ library, atHand library → library.module.Acyclic) → fault ≠ .endless

lemma define_supplies {library : Library} (hlibrary : atHand library) (row : Nat) :
    TracksTo (Regime.supplying atHand a) (fun _ => True) (fun id b => id < b.graph.size)
      (define library row) (define library row) := by
  rintro b _ ⟨rfl, hindexed, added, hb⟩ -
  have hstep : ∃ c, ((define library row).exec b).2 = c ∧ c.graph.Indexed ∧
      (∃ added, a.Supplied atHand added c) ∧ b.graph.size ≤ c.graph.size := by
    rcases exec_define_cases library row b with ⟨r, hrun⟩ | ⟨d, hd, hrun⟩
    · exact ⟨b, by rw [hrun], hindexed, ⟨added, hb⟩, Nat.le_refl _⟩
    · refine ⟨_, by rw [hrun], hindexed.add d, ?_, Graph.size_le_add b.graph d⟩
      rcases b.graph.add_cases d with ⟨-, hsame⟩ | ⟨hfree, -, -, -⟩
      · rw [hsame]
        exact ⟨added, hb⟩
      · exact ⟨added ++ [d], hb.more hlibrary hd hfree⟩
  obtain ⟨c, hc, hindexed', hsupplied, hsize⟩ := hstep
  refine ⟨c, c, ⟨rfl, hindexed', hsupplied⟩, ?_, ?_⟩
  · intro use hknown target htarget
    exact Nat.lt_of_lt_of_le (hknown target htarget) hsize
  · cases hrun : (define library row).exec b with
    | mk r c' =>
      rw [hrun] at hc
      subst hc
      cases r with
      | ok id => exact .inl ⟨id, rfl, rfl, lt_size_of_define hindexed hrun⟩
      | error fault =>
        obtain ⟨cause, rfl⟩ := malformed_of_define hrun
        exact .inr ⟨_, rfl, rfl, fun _ => nofun⟩

lemma supplying_steady (hpresent : ∀ library ∈ a.libraries, atHand library) :
    (Regime.supplying atHand a).Steady atHand where
  toAnswers := .of_eq fun _ _ h => h.1
  heldLookup := fun h => h.1 ▸ h.2.1.lt_size_of_lookup
  present := by
    rintro b _ ⟨rfl, -, added, hb⟩
    rw [hb.libraries]
    exact hpresent
  define := fun _ row hlibrary => define_supplies hlibrary row
  held := fun _ _ hknown id hid => hknown id (Use.mem_targets.mpr (.inl hid))
  toInherits := .of_targets fun _ _ => .rfl
  malformed := fun _ _ => nofun
  unresolved := fun _ _ _ _ => nofun
  ends := by
    intro library hlibrary
    by_cases hacyclic : ∀ library, atHand library → library.module.Acyclic
    · exact .inr (hacyclic library hlibrary)
    · exact .inl fun h => absurd h hacyclic

lemma supplying_followed (hlazy : a.settings.loadPolicy = .lazy) (load : DeclId → Work Unit) :
    Followed (Regime.supplying atHand a) (followWith load) (followWith load) := by
  rintro use b _ ⟨rfl, hindexed, added, hb⟩ ⟨hheld, hargs⟩
  have hstay := exec_followWith_of_lazy (c := b) (by rw [hb.settings, hlazy]) load use
  exact ⟨b, b, ⟨rfl, hindexed, added, hb⟩, fun _ hu => hu, .inl ⟨(), hstay, hstay, Use.forall_targets hheld hargs⟩⟩

/-- Finding out a shape registers what it meets for the first time, and nothing else. -/
lemma exec_shapeOf_lazy (hlazy : a.settings.loadPolicy = .lazy) (ha : a.graph.Indexed)
    (load : DeclId → Work Unit) (d : Declaration) :
    ∃ added b, a.Supplied (a.AtHand d) added b ∧
      ((∃ shape, (shapeOf (followWith load) d).exec a = (.ok shape, b) ∧
          ∀ target ∈ shape.references.map (·.2), target < b.graph.size) ∨
        ∃ fault, (shapeOf (followWith load) d).exec a = (.error fault, b) ∧
          ((∀ library, a.AtHand d library → library.module.Acyclic) → fault ≠ .endless)) := by
  have hsteady : (Regime.supplying (a.AtHand d) a).Steady (a.AtHand d) :=
    supplying_steady fun library hlibrary => .inl hlibrary
  have htracks : Tracks (Regime.supplying (a.AtHand d) a) [] Shape.uses (shapeOf (followWith load) d)
      (shapeOf (followWith load) d) := by
    apply shapeOf_tracks hsteady (supplying_followed hlazy load)
    intro m row hprovenance
    exact .inr ⟨row, hprovenance, rfl⟩
  obtain ⟨b, _, ⟨rfl, -, added, hb⟩, -, hruns⟩ :=
    htracks a a ⟨rfl, ha, [], .start⟩ fun _ hu => by cases hu
  refine ⟨added, b, hb, ?_⟩
  rcases hruns with ⟨shape, hrun, -, huses⟩ | ⟨fault, hrun, -, hfault⟩
  · exact .inl ⟨shape, hrun, Shape.forall_references huses⟩
  · exact .inr ⟨fault, hrun, hfault⟩

/-- What a load does: nothing to a declaration that is loaded; otherwise it registers what it
meets for the first time and publishes the shape, or it fails and leaves the declaration as it
was. -/
lemma exec_load_lazy (hlazy : a.settings.loadPolicy = .lazy) (ha : a.graph.Indexed) (hsettled : a.graph.Settled)
    (id : DeclId) :
    ((load id).exec a = (.ok (), a) ∧ ∀ d, a.graph.get? id = some d → d.loaded = true) ∨
      ∃ d added b, a.graph.get? id = some d ∧ d.loaded = false ∧ a.Supplied (a.AtHand d) added b ∧
        ((∃ shape, (load id).exec a = (.ok (), (b.flag id true).publish id shape) ∧
            ∀ target ∈ shape.references.map (·.2), target < b.graph.size) ∨
          ∃ fault, (load id).exec a = (.error fault, b) ∧
            ((∀ library, a.AtHand d library → library.module.Acyclic) → fault ≠ .endless)) := by
  rw [exec_load]
  rcases exec_loadWith_cases a.capacity id a with ⟨hexec, hsettles⟩ | ⟨d, r, c, hd, hloaded, hrun, -, hexecs⟩
  · exact .inl ⟨hexec, hsettles⟩
  have hid : id < a.graph.size := Graph.lt_size_of_get? hd
  have hempty : d.shape = {} := hsettled.empty hd hloaded
  have hindexed : (a.flag id true).graph.Indexed :=
    ha.modify id (f := ({ · with loaded := true })) fun _ => rfl
  obtain ⟨added, _, hc, hruns⟩ := exec_shapeOf_lazy (a := a.flag id true) hlazy hindexed
    (loadWith a.capacity) d
  obtain ⟨b, hb, rfl⟩ := hc.unmark hid
  refine .inr ⟨d, added, b, hd, hloaded, hb, ?_⟩
  rcases hruns with ⟨shape, hrun', htargets⟩ | ⟨fault, hrun', hfault⟩ <;> cases hrun.symm.trans hrun' <;>
    obtain ⟨_, ⟨⟩, hexec⟩ | ⟨_, ⟨⟩, hexec⟩ := hexecs
  · rw [hempty, Shape.onto_empty] at hexec
    refine .inl ⟨shape, hexec, ?_⟩
    intro target hmem
    simpa [Atlas.flag] using htargets target hmem
  · have hsame : b.graph.get? id = some d := (hb.get?_of_lt hid).trans hd
    rw [Atlas.rollBack_flag hsame hloaded hempty] at hexec
    exact .inr ⟨fault, hexec, hfault⟩

end Work

namespace Atlas

/-- A load that fails leaves the atlas as it was, apart from declarations behind all others:
every declaration that was there is the same, the one that was to be loaded included, and so
are the edges. What was registered on the way are definitions of modules at hand; none of
them is loaded, has a shape or data, or has an edge that leaves it. -/
theorem failed_load_leaves_no_trace (settings : Settings) (calls : List Call) (a b : Atlas)
    (id : DeclId) (fault : Fault) (hlazy : settings.loadPolicy = .lazy)
    (ha : a = ({ settings } : Atlas).afterAll calls)
    (hload : (Work.load id).exec a = (.error fault, b)) :
    ∃ d added, a.graph.get? id = some d ∧ d.loaded = false ∧
      b = { a with graph := a.graph.addAll added } ∧
      b.graph.declarations = a.graph.declarations ++ added.toArray ∧
      b.graph.edges = a.graph.edges ∧
      (∀ other < a.graph.size, b.graph.get? other = a.graph.get? other ∧
        b.graph.outgoing other = a.graph.outgoing other) ∧
      ∀ other e, a.graph.size ≤ other → b.graph.get? other = some e →
        e.loaded = false ∧ e.shape = {} ∧ e.data = {} ∧ b.graph.outgoing other = [] ∧
          ∃ library row, a.AtHand d library ∧ e.provenance = .module library.module row ∧
            Declaration.ofDefinition none library row = .ok e := by
  have hpolicy : a.settings.loadPolicy = .lazy := by
    rw [ha, settings_afterAll settings calls]
    exact hlazy
  have hindexed : a.graph.Indexed := by
    rw [ha]
    exact indexed_afterAll settings calls
  have hsettled : a.graph.Settled := by
    rw [ha]
    exact settled_afterAll settings calls
  rcases Work.exec_load_lazy hpolicy hindexed hsettled id with
    ⟨hrun, -⟩ | ⟨d, added, c, hd, hunloaded, hsupplied, ⟨shape, hrun, -⟩ | ⟨_, hrun, -⟩⟩
  · rw [hrun] at hload
    cases hload
  · rw [hrun] at hload
    cases hload
  · rw [hrun] at hload
    cases hload
    have hedges : ∀ other, b.graph.outgoing other = a.graph.outgoing other := by
      intro other
      unfold Graph.outgoing
      rw [hsupplied.edges]
    refine ⟨d, added, hd, hunloaded, hsupplied.eq_addAll, hsupplied.declarations, hsupplied.edges, ?_, ?_⟩
    · intro other hother
      exact ⟨hsupplied.get?_of_lt hother, hedges other⟩
    · intro other e hother he
      rcases hsupplied.get?_cases he with hold | ⟨-, hadded⟩
      · have hlt := Graph.lt_size_of_get? hold
        exact absurd hlt (Nat.not_lt.mpr hother)
      · obtain ⟨library, row, hlibrary, hdefined⟩ := hsupplied.defined hadded
        obtain ⟨kind, ns, raw, generics, -, -, -, rfl⟩ := Declaration.ofDefinition_eq_ok hdefined
        have hnone : b.graph.outgoing other = [] := by
          rw [hedges, Graph.outgoing, List.filter_eq_nil_iff]
          intro edge hedge
          have hsource := hsettled.sources edge hedge
          simp only [beq_iff_eq]
          exact fun heq => absurd (heq ▸ hsource) (Nat.not_lt.mpr hother)
        exact ⟨rfl, rfl, rfl, hnone, library, row, hlibrary, rfl, hdefined⟩

def wheels : Library where
  module := ((do
    let _ ← Metadata.Builder.defineType 1 "Wheels" "Wheel" none : Metadata.Build Unit).run.run
      (Metadata.Builder.ofAssembly "Wheels")).2.module
  location := "wheels.dll"

/-- A type whose base comes from the module and whose property has a type that nobody
defines. -/
def cart : Source.Document := .read "cart.cs"
  "class Cart : Wheels.Wheel \x7b Engine Motor \x7b get; \x7d \x7d"

def cartCalls : List Call := [.addLibrary wheels, .addDocument cart, .setData 0 (.word 1)]

/-- An atlas that can draw on the module, with the type registered. -/
def cartAtlas : Atlas := ({ settings := {} } : Atlas).afterAll cartCalls

/-- The base is registered before the load fails. -/
theorem failed_load_leaves_no_trace_cart :
    ∃ fault b, (Work.load 0).exec cartAtlas = (.error fault, b) ∧
      cartAtlas.graph.size = 1 ∧ b.graph.size = 2 ∧
      ∃ d added, cartAtlas.graph.get? 0 = some d ∧ d.loaded = false ∧
        b = { cartAtlas with graph := cartAtlas.graph.addAll added } ∧
        b.graph.declarations = cartAtlas.graph.declarations ++ added.toArray ∧
        b.graph.edges = cartAtlas.graph.edges ∧
        (∀ other < cartAtlas.graph.size, b.graph.get? other = cartAtlas.graph.get? other ∧
          b.graph.outgoing other = cartAtlas.graph.outgoing other) ∧
        ∀ other e, cartAtlas.graph.size ≤ other → b.graph.get? other = some e →
          e.loaded = false ∧ e.shape = {} ∧ e.data = {} ∧ b.graph.outgoing other = [] ∧
            ∃ library row, cartAtlas.AtHand d library ∧
              e.provenance = .module library.module row ∧
              Declaration.ofDefinition none library row = .ok e := by
  obtain ⟨hfails, hbefore, hafter⟩ : ((Work.load 0).exec cartAtlas).1.isOk = false ∧
      cartAtlas.graph.size = 1 ∧ ((Work.load 0).exec cartAtlas).2.graph.size = 2 := by
    decide +kernel
  cases hload : (Work.load 0).exec cartAtlas with
  | mk result b =>
    rw [hload] at hfails hafter
    cases result with
    | ok _ => cases hfails
    | error fault =>
      exact ⟨fault, b, rfl, hbefore, hafter,
        failed_load_leaves_no_trace {} cartCalls cartAtlas b 0 fault rfl rfl hload⟩

end Atlas

end TypeAtlas
