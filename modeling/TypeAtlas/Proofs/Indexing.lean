import TypeAtlas.Proofs.Loading

/-!
The indexes of a graph. After any calls, a key leads to the one declaration that has it, and
a full name to all declarations of that name in the order they were registered. So a lookup
fails exactly where no declaration has the name and the arity.
-/

namespace TypeAtlas

variable {id : DeclId} {location : Option String} {arity : Nat}

namespace Index

variable {κ : Type} [DecidableEq κ]

lemma lookup_addTo (key other : κ) (id : DeclId) (entries : List (κ × List DeclId)) :
    ((addTo key id entries).lookup other).getD [] =
      if other = key then (entries.lookup other).getD [] ++ [id]
      else (entries.lookup other).getD [] := by
  induction entries with
  | nil =>
    by_cases hother : other = key
    · simp [addTo, hother]
    · have hbeq : (other == key) = false := by simpa using hother
      simp [addTo, List.lookup_cons, hother, hbeq]
  | cons entry rest ih =>
    obtain ⟨k, ids⟩ := entry
    by_cases hk : k = key
    · subst hk
      by_cases hother : other = k
      · simp [addTo, hother]
      · have hbeq : (other == k) = false := by simpa using hother
        simp [addTo, List.lookup_cons, hother, hbeq]
    · by_cases hother : other = k
      · subst hother
        simp [addTo, hk]
      · have hbeq : (other == k) = false := by simpa using hother
        simp only [addTo, hk, if_false, List.lookup_cons, hbeq, ih]

lemma ids_add (index : Index κ) (key other : κ) (id : DeclId) :
    (index.add key id).ids other =
      if other = key then index.ids other ++ [id] else index.ids other :=
  lookup_addTo key other id index.entries

end Index

namespace Graph

variable {d : Declaration} {g : Graph} {f : Declaration → Declaration}

/-- The indexes by key and by full name answer as the declarations do. -/
structure Indexed (g : Graph) : Prop where
  byKey : ∀ key id, g.findQualified key = some id ↔ ∃ d, g.get? id = some d ∧ d.key = key
  byFullName : ∀ fullName, g.find fullName = g.ids.filter (g.fullNameOf · == fullName)

lemma fullNameOf_eq (h : g.get? id = some d) : g.fullNameOf id = d.fullName := by
  simp [fullNameOf, h]

lemma Indexed.initial : ({} : Graph).Indexed where
  byKey := by
    intro key id
    simp [findQualified, Index.ids, get?]
  byFullName := by
    intro fullName
    simp [find, Index.ids, ids, size]

lemma add_of_free (hfree : g.findQualified d.key = none) :
    g.add d = (g.size, { g with
      declarations := g.declarations.push d
      byName := g.byName.add d.name g.size
      byFullName := g.byFullName.add d.fullName g.size
      byKey := g.byKey.add d.key g.size
      byLocation := g.byLocation.add d.location g.size }) := by
  simp [add, hfree]

lemma add_of_taken (htaken : g.findQualified d.key = some id) : g.add d = (id, g) := by
  simp [add, htaken]

lemma size_add_of_free (hfree : g.findQualified d.key = none) : (g.add d).2.size = g.size + 1 := by
  simp [add_of_free hfree, size]

lemma get?_add_of_free (hfree : g.findQualified d.key = none) : (g.add d).2.get? g.size = some d := by
  simp [add_of_free hfree, get?, size]

lemma Indexed.add (h : g.Indexed) (d : Declaration) : (g.add d).2.Indexed := by
  cases hkey : g.findQualified d.key with
  | some id =>
    rw [add_of_taken hkey]
    exact h
  | none =>
    have hnew := get?_add_of_free hkey
    refine ⟨fun key id => ?_, fun fullName => ?_⟩
    · have hindex : (g.add d).2.findQualified key =
          if key = d.key then some g.size else g.findQualified key := by
        simp only [add_of_free hkey, findQualified, Index.ids_add]
        split
        · rename_i heq
          have hnil : g.byKey.ids key = [] := by
            rw [heq]
            exact List.head?_eq_none_iff.mp hkey
          simp [hnil]
        · rfl
      rw [hindex]
      constructor
      · intro hfound
        split at hfound
        · rename_i heq
          cases hfound
          exact ⟨d, hnew, heq.symm⟩
        · obtain ⟨e, he, hekey⟩ := (h.byKey key id).mp hfound
          exact ⟨e, (get?_add d (lt_size_of_get? he)).trans he, hekey⟩
      · rintro ⟨e, he, rfl⟩
        rcases get?_add_eq_some he with hold | ⟨rfl, rfl, -, -⟩
        · have hfound := (h.byKey e.key id).mpr ⟨e, hold, rfl⟩
          rw [if_neg]
          · exact hfound
          · intro heq
            rw [heq, hkey] at hfound
            cases hfound
        · rw [if_pos rfl]
    · have hold : ∀ id ∈ List.range g.size,
          ((g.add d).2.fullNameOf id == fullName) = (g.fullNameOf id == fullName) := by
        intro id hid
        unfold fullNameOf
        rw [get?_add d (List.mem_range.mp hid)]
      have hname : (g.add d).2.fullNameOf g.size = d.fullName := fullNameOf_eq hnew
      rw [ids, size_add_of_free hkey, List.range_succ, List.filter_append,
        List.filter_congr hold, List.filter_cons, List.filter_nil, hname]
      have hfind : (g.add d).2.find fullName =
          if fullName = d.fullName then g.find fullName ++ [g.size] else g.find fullName := by
        simp only [add_of_free hkey, find, Index.ids_add]
      rw [hfind, h.byFullName, ids]
      by_cases heq : fullName = d.fullName
      · simp [heq]
      · have hne : (d.fullName == fullName) = false := by simpa using Ne.symm heq
        simp [heq, hne]

/-- What a registration leads to has the key that was asked for. -/
lemma Indexed.get?_add_self (h : g.Indexed) (d : Declaration) :
    ∃ e, (g.add d).2.get? (g.add d).1 = some e ∧ e.key = d.key := by
  rcases g.add_cases d with ⟨hkey, hsame⟩ | ⟨hfree, hid, -, -⟩
  · rw [hsame]
    exact (h.byKey d.key _).mp hkey
  · rw [hid]
    exact ⟨d, get?_add_of_free hfree, rfl⟩

lemma Indexed.congr {g' : Graph} (h : g.Indexed) (hkeys : g'.byKey = g.byKey)
    (hnames : g'.byFullName = g.byFullName) (hsize : g'.size = g.size)
    (hget : ∀ id, (g'.get? id).map (·.key) = (g.get? id).map (·.key)) : g'.Indexed := by
  have hfullNameOf : g'.fullNameOf = g.fullNameOf := by
    funext id
    have hname := congrArg (Option.map Key.fullName) (hget id)
    simp only [Option.map_map] at hname
    exact congrArg (Option.getD · "") hname
  refine ⟨fun key id => ?_, fun fullName => ?_⟩
  · have hsame : g'.findQualified key = g.findQualified key := by
      unfold findQualified
      rw [hkeys]
    have hkey := hget id
    rw [hsame, h.byKey]
    simp only [← Option.map_eq_some_iff, hkey]
  · have hfind : g'.find fullName = g.find fullName := by
      unfold find
      rw [hnames]
    rw [hfind, h.byFullName, ids, ids, hsize, hfullNameOf]

lemma get?_modify_key (g : Graph) (id other : DeclId) (hf : ∀ d, (f d).key = d.key) :
    ((g.modify id f).get? other).map (·.key) = (g.get? other).map (·.key) := by
  rw [get?_modify]
  split
  · cases g.get? other with
    | none => rfl
    | some d => exact congrArg some (hf d)
  · rfl

lemma Indexed.modify (h : g.Indexed) (id : DeclId) (hf : ∀ d, (f d).key = d.key) : (g.modify id f).Indexed :=
  h.congr rfl rfl (size_modify g id f) fun other => g.get?_modify_key id other hf

lemma Indexed.recordReferences (h : g.Indexed) (id : DeclId) : (g.recordReferences id).Indexed := by
  refine h.congr ?_ ?_ (size_recordReferences g id) fun other => by rw [get?_recordReferences]
  · unfold Graph.recordReferences
    split <;> rfl
  · unfold Graph.recordReferences
    split <;> rfl

lemma Indexed.get?_lookup (h : g.Indexed) {fullName : String}
    (hlookup : g.lookup fullName arity location = some id) :
    ∃ d, g.get? id = some d ∧ d.fullName = fullName ∧ d.arity = arity := by
  unfold lookup at hlookup
  split at hlookup
  · rename_i found hqualified
    cases hlookup
    obtain ⟨location, -, hfound⟩ := Option.bind_eq_some_iff.mp hqualified
    obtain ⟨d, hd, hkey⟩ := (h.byKey _ _).mp hfound
    exact ⟨d, hd, congrArg Key.fullName hkey, congrArg Key.arity hkey⟩
  · have hmem := List.mem_of_find?_eq_some hlookup
    have harity := List.find?_some hlookup
    rw [h.byFullName, List.mem_filter, ids, List.mem_range] at hmem
    obtain ⟨d, hd⟩ := get?_of_lt_size hmem.1
    refine ⟨d, hd, ?_, ?_⟩
    · have hname := hmem.2
      rw [fullNameOf_eq hd] at hname
      simpa using hname
    · simpa [hasArity, hd] using harity

lemma Indexed.lt_size_of_lookup (h : g.Indexed) {fullName : String}
    (hlookup : g.lookup fullName arity location = some id) : id < g.size := by
  obtain ⟨d, hd, -, -⟩ := h.get?_lookup hlookup
  exact lt_size_of_get? hd

/-- A lookup finds something where some declaration has the name and the arity. -/
lemma Indexed.lookup_ne_none (h : g.Indexed) (hd : g.get? id = some d) (location : Option String) :
    g.lookup d.fullName d.arity location ≠ none := by
  intro hnone
  unfold lookup at hnone
  split at hnone
  · cases hnone
  · have hmem : id ∈ g.find d.fullName := by
      rw [h.byFullName, List.mem_filter, ids, List.mem_range, fullNameOf_eq hd]
      exact ⟨lt_size_of_get? hd, by simp⟩
    have harity := List.find?_eq_none.mp hnone id hmem
    simp [hasArity, hd] at harity

end Graph

namespace Work

variable {b : Atlas} {library : Library} {row : Nat}

lemma setData_keeps_indexed (id : DeclId) (value : Datum) :
    Keeps (·.graph.Indexed) (setData id value) :=
  setData_keeps fun _ _ data ha _ _ => ha.modify id (f := ({ · with data := data })) fun _ => rfl

lemma register_keeps_indexed (d : Declaration) : Keeps (·.graph.Indexed) (register d) :=
  fun _ ha => ha.add d

lemma get?_define {a : Atlas} (ha : a.graph.Indexed) {key : Key} (hkey : library.markedKey row = .ok key)
    (hrun : (define library row).exec a = (.ok id, b)) :
    ∃ d, b.graph.get? id = some d ∧ d.fullName = key.fullName ∧ d.location = key.location := by
  obtain ⟨other, hother, hcases⟩ := define_eq_ok hrun
  cases hkey.symm.trans hother
  rcases hcases with ⟨hfound, rfl⟩ | ⟨-, d, hd, rfl, rfl⟩
  · obtain ⟨d, hd, hsame⟩ := (ha.byKey key id).mp hfound
    exact ⟨d, hd, congrArg Key.fullName hsame, congrArg Key.location hsame⟩
  · obtain ⟨kind, ns, raw, generics, -, hname, -, heq⟩ := Declaration.ofDefinition_eq_ok hd
    rw [Library.markedKey, hname] at hkey
    cases hkey
    obtain ⟨e, he, hsame⟩ := ha.get?_add_self d
    rw [heq] at hsame
    exact ⟨e, he, congrArg Key.fullName hsame, congrArg Key.location hsame⟩

/-- A definition leads to a declaration that is registered. -/
lemma lt_size_of_define {c : Atlas} (hb : b.graph.Indexed) (hrun : (define library row).exec b = (.ok id, c)) :
    id < c.graph.size := by
  obtain ⟨key, hkey, -⟩ := define_eq_ok hrun
  obtain ⟨d, hd, -, -⟩ := get?_define hb hkey hrun
  exact Graph.lt_size_of_get? hd

lemma loadWith_keeps_indexed (fuel : Nat) (id : DeclId) : Keeps (·.graph.Indexed) (loadWith fuel id) := by
  apply loadWith_keeps (define_keeps fun d _ => register_keeps_indexed d)
  · exact fun b other hb => hb.modify other (f := ({ · with loaded := true })) fun _ => rfl
  · exact fun b other hb => hb.modify other (f := ({ · with loaded := false, shape := {} })) fun _ => rfl
  · intro b other shape hb
    exact (hb.modify other (f := ({ · with shape := shape })) fun _ => rfl).recordReferences other

lemma load_keeps_indexed (id : DeclId) : Keeps (·.graph.Indexed) (load id) :=
  load_keeps fun fuel => loadWith_keeps_indexed fuel id

end Work

lemma Atlas.indexed_afterAll (settings : Settings) (calls : List Call) :
    (({ settings } : Atlas).afterAll calls).graph.Indexed := by
  refine Atlas.afterAll_induction (P := (·.graph.Indexed)) (fun call _ => ?_) Graph.Indexed.initial
  exact Call.keeps (fun d _ => Work.register_keeps_indexed d) (fun _ _ ha => ha)
    Work.setData_keeps_indexed Work.load_keeps_indexed call

end TypeAtlas
