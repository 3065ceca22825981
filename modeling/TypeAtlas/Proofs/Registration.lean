import TypeAtlas.Proofs.ShapeTracking

/-!
How registration changes a graph, and regimes of one run. Registering appends a declaration
or changes nothing; a definition of a library is registered unloaded and with an empty shape.
A property that registration and following a use keep is kept by everything that finds out
a shape.
-/

namespace TypeAtlas

variable {id : DeclId} {library : Library} {row : Nat}

namespace Graph

variable {g : Graph}

/-- Registering finds the key taken, or appends the declaration behind all others. -/
lemma add_cases (g : Graph) (d : Declaration) :
    (g.findQualified d.key = some (g.add d).1 ∧ (g.add d).2 = g) ∨
      (g.findQualified d.key = none ∧ (g.add d).1 = g.size ∧
        (g.add d).2.declarations = g.declarations.push d ∧ (g.add d).2.edges = g.edges) := by
  cases hkey : g.findQualified d.key with
  | some id => simp [add, hkey]
  | none => simp [add, hkey]

@[simp] lemma size_modify (g : Graph) (id : DeclId) (f : Declaration → Declaration) :
    (g.modify id f).size = g.size := by
  simp [modify, size]

@[simp] lemma edges_modify (g : Graph) (id : DeclId) (f : Declaration → Declaration) :
    (g.modify id f).edges = g.edges := rfl

lemma get?_modify (g : Graph) (id other : DeclId) (f : Declaration → Declaration) :
    (g.modify id f).get? other = if id = other then (g.get? other).map f else g.get? other := by
  simp only [get?, modify, Array.getElem?_modify]

lemma get?_modify_self (g : Graph) (id : DeclId) (f : Declaration → Declaration) :
    (g.modify id f).get? id = (g.get? id).map f := by
  simp [get?_modify]

lemma get?_modify_of_ne (g : Graph) {other : DeclId} (f : Declaration → Declaration) (hne : id ≠ other) :
    (g.modify id f).get? other = g.get? other := by
  simp [get?_modify, hne]

lemma lt_size_of_get? {d : Declaration} (h : g.get? id = some d) : id < g.size := by
  simp only [get?, Array.getElem?_eq_some_iff] at h
  exact h.1

lemma get?_of_lt_size (h : id < g.size) : ∃ d, g.get? id = some d := by
  have hbound : id < g.declarations.size := h
  exact ⟨g.declarations[id], Array.getElem?_eq_getElem hbound⟩

/-- What stood in the graph before a registration stays where it was. -/
lemma get?_add (d : Declaration) (h : id < g.size) : (g.add d).2.get? id = g.get? id := by
  rcases g.add_cases d with ⟨-, hsame⟩ | ⟨-, -, hpush, -⟩
  · rw [hsame]
  · have hne : id ≠ g.declarations.size := Nat.ne_of_lt h
    simp [get?, hpush, Array.getElem?_push, hne]

/-- Whatever is found after a registration was there before it or is what was registered. -/
lemma get?_add_eq_some {d found : Declaration} (h : (g.add d).2.get? id = some found) :
    g.get? id = some found ∨
      (id = g.size ∧ found = d ∧ g.findQualified d.key = none ∧ (g.add d).1 = g.size) := by
  rcases g.add_cases d with ⟨-, hsame⟩ | ⟨hfree, hid, hpush, -⟩
  · exact .inl (hsame ▸ h)
  · simp only [get?, hpush, Array.getElem?_push] at h
    split at h
    · exact .inr ⟨‹_›, (Option.some.inj h).symm, hfree, hid⟩
    · exact .inl h

lemma edges_add (g : Graph) (d : Declaration) : (g.add d).2.edges = g.edges := by
  rcases g.add_cases d with ⟨-, hsame⟩ | ⟨-, -, -, hedges⟩
  · rw [hsame]
  · exact hedges

lemma size_le_add (g : Graph) (d : Declaration) : g.size ≤ (g.add d).2.size := by
  rcases g.add_cases d with ⟨-, hsame⟩ | ⟨-, -, hpush, -⟩
  · exact Nat.le_of_eq (by rw [hsame])
  · simp [size, hpush]

@[simp] lemma get?_recordReferences (g : Graph) (id other : DeclId) :
    (g.recordReferences id).get? other = g.get? other := by
  unfold recordReferences
  split <;> rfl

@[simp] lemma size_recordReferences (g : Graph) (id : DeclId) :
    (g.recordReferences id).size = g.size := by
  unfold recordReferences
  split <;> rfl

end Graph

/-- A declaration that nothing is known of but its header. -/
structure Declaration.Fresh (d : Declaration) : Prop where
  unloaded : d.loaded = false
  empty : d.shape = {}

section

variable {implicitUsings usings : List String} {kind : Kind} {ns location : String}
  {handle : Source.Handle} {d : Declaration}
  (h : Declaration.ofSource implicitUsings kind ns usings handle location = .ok d)

include h

lemma Declaration.fresh_ofSource : d.Fresh := by
  unfold Declaration.ofSource at h
  split at h
  · cases h
  · split at h
    · cases h
      exact ⟨rfl, rfl⟩
    · cases h
  · cases h

lemma Declaration.provenance_ofSource : d.provenance = .source := by
  unfold Declaration.ofSource at h
  split at h
  · cases h
  · split at h
    · cases h
      rfl
    · cases h
  · cases h

end

/-- A definition can be made a declaration when its kind, its name and the names of its
generic parameters can be read. -/
lemma Declaration.ofDefinition_eq_ok {d : Declaration} (h : Declaration.ofDefinition none library row = .ok d) :
    ∃ kind ns raw generics, library.module.kindOf row = .ok kind ∧
      library.module.typeDefName row = .ok (ns, raw) ∧
      library.module.genericNames (.type row) = .ok generics ∧
      d = { kind, ns, name := (Metadata.splitArity raw).1
            location := library.location
            arity := generics.length
            usings := []
            handle := .synthesized (.typeNode kind.node)
              (definitionText kind (Metadata.splitArity raw).1 generics)
            provenance := .module library.module row } := by
  unfold Declaration.ofDefinition at h
  simp only [bind, Except.bind] at h
  cases hkind : library.module.kindOf row with
  | error cause => simp [hkind] at h
  | ok kind =>
    cases hname : library.module.typeDefName row with
    | error cause => simp [hkind, hname] at h
    | ok found =>
      obtain ⟨ns, raw⟩ := found
      cases hgenerics : library.module.genericNames (.type row) with
      | error cause => simp [hkind, hname, hgenerics] at h
      | ok generics =>
        simp only [hkind, hname, hgenerics, pure, Except.pure, Except.ok.injEq] at h
        exact ⟨kind, ns, raw, generics, rfl, rfl, rfl, h.symm⟩

lemma Declaration.fresh_ofDefinition {d : Declaration} (h : Declaration.ofDefinition none library row = .ok d) :
    d.Fresh := by
  obtain ⟨kind, ns, raw, generics, -, -, -, rfl⟩ := Declaration.ofDefinition_eq_ok h
  exact ⟨rfl, rfl⟩

/-- The key under which a definition is looked for before it is registered. Its arity is
the one its name is marked with. -/
def Library.markedKey (library : Library) (row : Nat) : Except Malformed Key := do
  let (ns, raw) ← library.module.typeDefName row
  return ⟨qualify ns (Metadata.splitArity raw).1, (Metadata.splitArity raw).2, library.location⟩

namespace Work

variable {a : Atlas}

lemma exec_define (library : Library) (row : Nat) (a : Atlas) :
    (define library row).exec a =
      match library.markedKey row with
      | .error cause => (.error (.malformed cause), a)
      | .ok key =>
        match a.graph.findQualified key with
        | some id => (.ok id, a)
        | none =>
          match Declaration.ofDefinition none library row with
          | .error cause => (.error (.malformed cause), a)
          | .ok d => (.ok (a.graph.add d).1, { a with graph := (a.graph.add d).2 }) := by
  unfold define Library.markedKey
  simp only [exec_bind]
  cases library.module.typeDefName row with
  | error cause => rfl
  | ok found =>
    simp only [exec_check_ok, exec_graph, bind, Except.bind, pure, Except.pure]
    cases a.graph.findQualified _ with
    | some id => rfl
    | none => cases Declaration.ofDefinition none library row <;> rfl

/-- A definition that is defined has a key. What is registered under it is the answer, or the
definition is registered now. -/
lemma define_eq_ok {b : Atlas} (h : (define library row).exec a = (.ok id, b)) :
    ∃ key, library.markedKey row = .ok key ∧ (a.graph.findQualified key = some id ∧ b = a ∨
      a.graph.findQualified key = none ∧ ∃ d, Declaration.ofDefinition none library row = .ok d ∧
        id = (a.graph.add d).1 ∧ b = { a with graph := (a.graph.add d).2 }) := by
  rw [exec_define] at h
  split at h
  · cases h
  · rename_i key hkey
    refine ⟨key, hkey, ?_⟩
    split at h
    · rename_i hfound
      cases h
      exact .inl ⟨hfound, rfl⟩
    · rename_i hfree
      split at h
      · cases h
      · rename_i d hd
        cases h
        exact .inr ⟨hfree, d, hd, rfl, rfl⟩

/-- Defining changes nothing, or registers the definition. -/
lemma exec_define_cases (library : Library) (row : Nat) (a : Atlas) :
    (∃ r, (define library row).exec a = (r, a)) ∨
      ∃ d, Declaration.ofDefinition none library row = .ok d ∧
        (define library row).exec a =
          (.ok (a.graph.add d).1, { a with graph := (a.graph.add d).2 }) := by
  rw [exec_define]
  cases library.markedKey row with
  | error cause => exact .inl ⟨_, rfl⟩
  | ok key =>
    dsimp only
    cases a.graph.findQualified key with
    | some id => exact .inl ⟨_, rfl⟩
    | none =>
      cases hd : Declaration.ofDefinition none library row with
      | error cause => exact .inl ⟨_, rfl⟩
      | ok d => exact .inr ⟨d, rfl, rfl⟩

section OneRun

variable {α : Type} {P : Atlas → Prop} {given : List Use} {uses : α → List Use} {w : Work α}
  {found : Use → Work Unit} {before : Atlas → Prop} {w' : Work α} {after : α → Atlas → Prop}

/-- The regime of one run along which a property is kept. -/
def Regime.oneRun (P : Atlas → Prop) : Regime where
  inStep a a' := a = a' ∧ P a
  known _ _ := True

/-- Two ways to do the same are one run. -/
lemma Keeps.tracks_of_eq (h : Keeps P w) (heq : ∀ a, P a → w.exec a = w'.exec a) (hafter : ∀ x b, after x b) :
    TracksTo (Regime.oneRun P) before after w w' := by
  rintro a _ ⟨rfl, ha⟩ -
  rw [← heq a ha]
  refine ⟨(w.exec a).2, (w.exec a).2, ⟨rfl, h a ha⟩, fun _ _ => trivial, ?_⟩
  cases hrun : w.exec a with
  | mk r b =>
    cases r with
    | ok x => exact .inl ⟨x, rfl, rfl, hafter x b⟩
    | error fault => exact .inr ⟨fault, rfl, rfl, trivial⟩

lemma Keeps.tracks (h : Keeps P w) (hafter : ∀ x b, after x b) : TracksTo (Regime.oneRun P) before after w w :=
  h.tracks_of_eq (fun _ _ => rfl) hafter

lemma Tracks.exec_eq (h : Tracks (Regime.oneRun P) [] uses w w') (ha : P a) : w.exec a = w'.exec a := by
  obtain ⟨b, _, ⟨rfl, -⟩, -, ⟨x, hw, hw', -⟩ | ⟨fault, hw, hw', -⟩⟩ := h a a ⟨rfl, ha⟩ fun _ _ => trivial
  · rw [hw, hw']
  · rw [hw, hw']

lemma Tracks.keeps (h : Tracks (Regime.oneRun P) [] uses w w) : Keeps P w := by
  intro a ha
  obtain ⟨b, b', ⟨-, hb⟩, -, ⟨x, hw, -, -⟩ | ⟨fault, hw, -⟩⟩ := h a a ⟨rfl, ha⟩ fun _ _ => trivial
  · rwa [hw]
  · rwa [hw]

lemma oneRun_steady {atHand : Library → Prop}
    (hpresent : ∀ a, P a → ∀ library ∈ a.libraries, atHand library)
    (hdefine : ∀ library row, atHand library → Keeps P (define library row)) :
    (Regime.oneRun P).Steady atHand where
  toInherits := .of_known fun _ _ => trivial
  toAnswers := .of_eq fun _ _ h => h.1
  heldLookup := fun _ _ _ _ _ _ => trivial
  present := fun h => hpresent _ h.2
  define := fun library row hlibrary => (hdefine library row hlibrary).tracks fun _ _ => trivial
  held := fun _ _ _ _ _ => trivial

section

variable (hdefine : ∀ library row, Keeps P (define library row))

include hdefine

lemma oneRun_steady_of_all : (Regime.oneRun P).Steady fun _ => True :=
  oneRun_steady (fun _ _ _ _ => trivial) fun library row _ => hdefine library row

/-- Finding out a shape keeps what registration and following a use keep. -/
lemma shapeOf_keeps
    (hfound : ∀ u, Keeps P (found u)) (d : Declaration) : Keeps P (shapeOf found d) :=
  (shapeOf_tracks (oneRun_steady_of_all hdefine) (fun u => (hfound u).tracks fun _ _ => trivial) d fun _ _ _ => trivial).keeps

lemma resolveFinding_keeps (hfound : ∀ u, Keeps P (found u)) (scope : Scope) (ref : TypeRef) :
    Keeps P (resolveFinding found scope ref) :=
  (resolveFinding_tracks (oneRun_steady_of_all hdefine) (fun u => (hfound u).tracks fun _ _ => trivial) scope ref).keeps

lemma resolveAttributeFinding_keeps
    (hfound : ∀ u, Keeps P (found u)) (scope : Scope) (ref : TypeRef) :
    Keeps P (resolveAttributeFinding found scope ref) :=
  (resolveAttributeFinding_tracks (oneRun_steady_of_all hdefine) (fun u => (hfound u).tracks fun _ _ => trivial) scope ref).keeps

lemma runtimeDeclaration_keeps (home : Library) (stored fullName : String) (arity : Nat) :
    Keeps P (runtimeDeclaration home stored fullName arity) := by
  refine Keeps.graph.bind fun g => ?_
  split
  · exact Keeps.pure _
  · split
    · exact hdefine _ _
    · exact Keeps.throw _

end

mutual

lemma runtimeFinding_keeps (hdefine : ∀ library row, Keeps P (define library row))
    (hfound : ∀ u, Keeps P (found u)) : ∀ type, Keeps P (runtimeFinding found type)
  | .mk home stored args array => by
    rw [runtimeFinding]
    dsimp only
    split
    · exact (hfound _).bind fun _ => Keeps.pure _
    · refine (runtimeDeclaration_keeps hdefine home stored _ _).bind fun id => ?_
      refine (runtimeEachFinding_keeps hdefine hfound args).bind fun uses => ?_
      exact (hfound _).bind fun _ => Keeps.pure _

lemma runtimeEachFinding_keeps (hdefine : ∀ library row, Keeps P (define library row))
    (hfound : ∀ u, Keeps P (found u)) : ∀ types, Keeps P (runtimeEachFinding found types)
  | [] => by
    rw [runtimeEachFinding]
    exact Keeps.pure []
  | type :: types => by
    rw [runtimeEachFinding]
    refine (runtimeFinding_keeps hdefine hfound type).bind fun use => ?_
    exact (runtimeEachFinding_keeps hdefine hfound types).bind fun uses => Keeps.pure (use :: uses)

end

end OneRun

end Work

end TypeAtlas
