import TypeAtlas.Proofs.AnyOrder
import TypeAtlas.Proofs.MemberOrder
import TypeAtlas.Proofs.Relocation

/-!
How many generic parameters a declaration has. The number is known from its header, and it is the
number that loading finds: in source because an enum has no type parameters however it is written,
in a module that has as many rows of generic parameters as it says (`Declaration.Counted.ensures`).
-/

namespace TypeAtlas

namespace Source

end Source

open Metadata

/-- A module in which every definition has as many generic parameters as its name is marked with,
and an enum has none. -/
structure Metadata.Module.ArityMarked (m : Module) : Prop where
  rows : ∀ row ∈ m.typeDefRows, ∀ ns raw, m.typeDefName row = .ok (ns, raw) →
    (m.genericParamsOf (.type row)).length = (splitArity raw).2
  enums : ∀ row ∈ m.typeDefRows, m.kindOf row = .ok .enumType → m.genericParamsOf (.type row) = []

lemma toOption_eq_some_iff {ε α : Type} {r : Except ε α} {x : α} : r.toOption = some x ↔ r = .ok x := by
  cases r with
  | ok y => simp [Except.toOption]
  | error cause => simp [Except.toOption]

instance (m : Module) : Decidable m.ArityMarked :=
  decidable_of_iff (∀ row ∈ m.typeDefRows, (∀ found ∈ (m.typeDefName row).toOption,
      (m.genericParamsOf (.type row)).length = (splitArity found.2).2) ∧
    ((m.kindOf row).toOption = some .enumType → m.genericParamsOf (.type row) = [])) <| by
    simp only [Option.mem_def, toOption_eq_some_iff]
    constructor
    · exact fun h => ⟨fun row hrow ns raw => (h row hrow).1 (ns, raw), fun row hrow => (h row hrow).2⟩
    · exact fun h row hrow => ⟨fun found => h.rows row hrow found.1 found.2, h.enums row hrow⟩

/-- A declaration whose arity is the number of the type parameters at the place it comes from. -/
def Declaration.Counted (d : Declaration) : Prop :=
  match d.provenance with
  | .source => ∃ tree, d.handle.node? = some (.ofType tree) ∧ tree.Plain ∧
      d.kind = tree.kind ∧ d.arity = tree.typeParams.length
  | .module m row => row ∈ m.typeDefRows ∧ m.kindOf row = .ok d.kind ∧
      ∃ names, m.genericNames (.type row) = .ok names ∧ d.arity = names.length

namespace Declaration

variable {d e : Declaration}

/-- Data, marks and shapes are not counted. -/
lemma Counted.of_header (h : d.Counted)
    (hheader : e = { d with data := e.data, loaded := e.loaded, shape := e.shape }) : e.Counted := by
  rw [hheader]
  exact h

lemma counted_ofDefinition {library : Library} {row : Nat} (h : Declaration.ofDefinition none library row = .ok d) :
    d.Counted := by
  obtain ⟨kind, ns, raw, generics, hkind, hname, hgenerics, rfl⟩ := Declaration.ofDefinition_eq_ok h
  have hkey : library.markedKey row = .ok ⟨qualify ns (splitArity raw).1, (splitArity raw).2, library.location⟩ := by
    rw [Library.markedKey, hname]
    rfl
  exact ⟨Library.mem_typeDefRows hkey, hkind, generics, hgenerics, rfl⟩

end Declaration

def Atlas.Counted (a : Atlas) : Prop := ∀ id d, a.graph.get? id = some d → d.Counted

lemma Atlas.counted_afterAll (settings : Settings) {calls : List Call}
    (hread : ∀ document, .addDocument document ∈ calls → ∃ path text, document = .read path text) :
    (({ settings } : Atlas).afterAll calls).Counted := by
  refine Atlas.afterAll_made (fun document hmem implicitUsings placed hplaced d hd => ?_)
    (fun library row d => Declaration.counted_ofDefinition) fun d e => Declaration.Counted.of_header
  obtain ⟨path, text, rfl⟩ := hread document hmem
  rw [ofPlaced_eq hplaced] at hd
  cases hd
  exact ⟨placed.tree, Source.Document.node?_of_mem hplaced, Source.Document.plain_of_mem hplaced, rfl, rfl⟩

lemma GenericParam.length_constrain (name : String) (use : Use) (params : List GenericParam) :
    (GenericParam.constrain name use params).length = params.length := by
  induction params with
  | nil => rfl
  | cons param rest ih =>
    unfold GenericParam.constrain
    split
    · rfl
    · rw [List.length_cons, List.length_cons, ih]

namespace Work

variable {found : Use → Work Unit}

lemma length_constrained (names : List String) (constraints : List (String × Use)) :
    (constrained names constraints).length = names.length := by
  unfold constrained
  refine List.foldlRecOn (motive := fun params : List GenericParam => params.length = names.length) constraints _
    (List.length_map _) fun params hparams entry _ => ?_
  rw [GenericParam.length_constrain, hparams]

lemma writtenShape_ensures (document : Source.Document) (scope : Scope) {tree : Source.DeclTree}
    (htree : tree.Plain) :
    Ensures (writtenShape found document scope tree.kind tree) fun shape => shape.generics.length = tree.typeParams.length := by
  unfold writtenShape
  split
  next henum => exact (Ensures.any _).bind fun _ _ => .pure (congrArg List.length (htree.2 henum)).symm
  next =>
    refine (Ensures.any _).bind fun constraints _ => (Ensures.any _).bind fun _ _ => ?_
    exact (Ensures.any _).bind fun _ _ => (Ensures.any _).bind fun _ _ => .pure (length_constrained _ constraints)

lemma storedShape_counts {m : Module} (hmarked : m.ArityMarked) {location : String} {scope : Scope} {kind : Kind}
    {row : Nat} (hrow : row ∈ m.typeDefRows) (hkind : m.kindOf row = .ok kind) {names : List String}
    (hnames : m.genericNames (.type row) = .ok names) :
    Ensures (storedShape found ⟨m, location⟩ scope kind row) fun shape => shape.generics.length = names.length := by
  unfold storedShape
  split
  next henum =>
    have hnone : names.length = 0 := by
      rw [Module.length_genericNames hnames, hmarked.enums row hrow (henum ▸ hkind), List.length_nil]
    exact (Ensures.any _).bind fun _ _ => .pure hnone.symm
  next =>
    refine Ensures.bind_check hnames ((storedGenerics_ensures _ hnames).bind fun generics hgenerics => ?_)
    refine (Ensures.any _).bind fun _ _ => (Ensures.any _).bind fun _ _ => (Ensures.any _).bind fun _ _ => ?_
    refine (Ensures.any _).bind fun _ _ => (Ensures.any _).bind fun _ _ => .pure ?_
    rw [← hgenerics, List.length_map]

end Work

/-- Loading finds as many generic parameters as were counted. -/
lemma Declaration.Counted.ensures {d : Declaration} (h : d.Counted)
    (hmarked : ∀ m row, d.provenance = .module m row → m.ArityMarked) (found : Use → Work Unit) :
    Work.Ensures (Work.shapeOf found d) fun shape => shape.generics.length = d.arity := by
  unfold Declaration.Counted at h
  unfold Work.shapeOf
  cases hprovenance : d.provenance with
  | source =>
    rw [hprovenance] at h
    obtain ⟨tree, hnode, htree, hkind, harity⟩ := h
    simp only [Work.sourceShape, hnode, harity, hkind]
    exact Work.writtenShape_ensures _ _ htree
  | module m row =>
    rw [hprovenance] at h
    obtain ⟨hrow, hkind, names, hnames, harity⟩ := h
    simp only [harity]
    exact Work.storedShape_counts (hmarked m row hprovenance) hrow hkind hnames

lemma Atlas.length_generics_afterAll (settings : Settings) (calls : List Call) {id : DeclId} {d : Declaration}
    (hd : (({ settings } : Atlas).afterAll calls).graph.get? id = some d) (hloaded : d.loaded = true)
    (hcounted : d.Counted) (hmarked : ∀ m row, d.provenance = .module m row → m.ArityMarked) : d.shape.generics.length = d.arity := by
  obtain ⟨e, found, b, c, hheader, hrun⟩ := Atlas.explored_afterAll settings calls id d hd hloaded List.not_mem_nil
  rw [hheader] at hrun
  have hcounted' : Declaration.Counted { d with data := e.data, loaded := e.loaded, shape := e.shape } := hcounted
  exact hcounted'.ensures hmarked found b d.shape c hrun

end TypeAtlas
