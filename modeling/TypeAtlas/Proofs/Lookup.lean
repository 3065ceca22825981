import TypeAtlas.Proofs.Indexing

/-!
What the indexes of a graph answer. A graph changes by registering declarations, by changing
them without their keys and by recording references, in calls that succeed or fail. Main
statement: after any run of such steps the answers by key, by full name, by location and of a
lookup are those that a search through all declarations would give.
-/

namespace TypeAtlas

namespace Graph

/-- `ids` are the declarations with a property, all of them and in the order they were registered. -/
def Selects (g : Graph) (ids : List DeclId) (p : Declaration → Prop) : Prop :=
  ids.Pairwise (· < ·) ∧ ∀ id, id ∈ ids ↔ ∃ d, g.get? id = some d ∧ p d

/-- Whether some declaration has a key. -/
def Holds (g : Graph) (key : Key) : Prop := ∃ id d, g.get? id = some d ∧ d.key = key

/-- What a lookup is to find: the declaration with the name and the arity at the preferred
location, else the first with the name and the arity, else none. -/
inductive LeadsTo (g : Graph) (fullName : String) (arity : Nat) :
    Option String → Option DeclId → Prop
  | preferred {location : String} {id : DeclId} {d : Declaration} (hd : g.get? id = some d)
      (hkey : d.key = ⟨fullName, arity, location⟩) :
      LeadsTo g fullName arity (some location) (some id)
  | first {location : Option String} {id : DeclId} {d : Declaration}
      (hnone : ∀ place, location = some place → ¬g.Holds ⟨fullName, arity, place⟩)
      (hd : g.get? id = some d) (hname : d.fullName = fullName) (harity : d.arity = arity)
      (hleast : ∀ other < id, ∀ e, g.get? other = some e →
        ¬(e.fullName = fullName ∧ e.arity = arity)) :
      LeadsTo g fullName arity location (some id)
  | absent {location : Option String}
      (hnone : ∀ id d, g.get? id = some d → ¬(d.fullName = fullName ∧ d.arity = arity)) :
      LeadsTo g fullName arity location none

variable {g : Graph} {ids : List DeclId} {p : Declaration → Prop} {d : Declaration}

lemma Selects.lt_size (h : g.Selects ids p) {id : DeclId} (hmem : id ∈ ids) : id < g.size := by
  obtain ⟨d, hd, -⟩ := (h.2 id).mp hmem
  exact lt_size_of_get? hd

/-- A declaration that is registered joins the lists it belongs to, behind all others. -/
lemma Selects.add (h : g.Selects ids p) (hfree : g.findQualified d.key = none) [Decidable (p d)] :
    (g.add d).2.Selects (if p d then ids ++ [g.size] else ids) p := by
  have hnew := get?_add_of_free hfree
  constructor
  · split
    · apply List.pairwise_append.mpr
      refine ⟨h.1, List.pairwise_singleton _ _, ?_⟩
      intro id hmem last hlast
      rw [List.mem_singleton.mp hlast]
      exact h.lt_size hmem
    · exact h.1
  · intro id
    have hmem : id ∈ (if p d then ids ++ [g.size] else ids) ↔ id ∈ ids ∨ (id = g.size ∧ p d) := by
      split <;> simp_all
    rw [hmem, h.2]
    constructor
    · rintro (⟨e, he, hp⟩ | ⟨rfl, hp⟩)
      · exact ⟨e, (get?_add d (lt_size_of_get? he)).trans he, hp⟩
      · exact ⟨d, hnew, hp⟩
    · rintro ⟨e, he, hp⟩
      rcases get?_add_eq_some he with hold | ⟨rfl, rfl, -, -⟩
      · exact Or.inl ⟨e, hold, hp⟩
      · exact Or.inr ⟨rfl, hp⟩

/-- The index by location answers as the declarations do. -/
def Located (g : Graph) : Prop :=
  ∀ location, g.Selects (g.declarationsIn location) (·.location = location)

lemma Located.initial : ({} : Graph).Located := by
  intro location
  constructor
  · simp [declarationsIn, Index.ids]
  · simp [declarationsIn, Index.ids, get?]

lemma Located.add (h : g.Located) (d : Declaration) : (g.add d).2.Located := by
  cases hkey : g.findQualified d.key with
  | some id =>
    rw [add_of_taken hkey]
    exact h
  | none =>
    intro location
    have hlist : (g.add d).2.declarationsIn location =
        if d.location = location then g.declarationsIn location ++ [g.size]
        else g.declarationsIn location := by
      simp only [add_of_free hkey, declarationsIn, Index.ids_add, eq_comm]
    rw [hlist]
    exact (h location).add hkey

/-- Graphs with the same index in which every declaration stays at its location are located
alike. -/
lemma Located.congr {g' : Graph} (h : g.Located) (hindex : g'.byLocation = g.byLocation)
    (hget : ∀ id, (g'.get? id).map (·.key) = (g.get? id).map (·.key)) : g'.Located := by
  intro location
  have hlist : g'.declarationsIn location = g.declarationsIn location := by
    unfold declarationsIn
    rw [hindex]
  rw [hlist]
  refine ⟨(h location).1, ?_⟩
  intro id
  have hplace : (g'.get? id).map (·.location) = (g.get? id).map (·.location) := by
    have hkey := congrArg (Option.map Key.location) (hget id)
    simpa [Option.map_map, Function.comp_def, Declaration.key] using hkey
  rw [(h location).2, ← Option.map_eq_some_iff, ← Option.map_eq_some_iff, hplace]

lemma Located.modify (h : g.Located) (id : DeclId) {f : Declaration → Declaration}
    (hf : ∀ d, (f d).key = d.key) : (g.modify id f).Located :=
  h.congr rfl fun other => g.get?_modify_key id other hf

lemma Located.recordReferences (h : g.Located) (id : DeclId) : (g.recordReferences id).Located := by
  refine h.congr ?_ ?_
  · unfold Graph.recordReferences
    split <;> rfl
  · intro other
    rw [get?_recordReferences]

lemma Indexed.key_injective (h : g.Indexed) {id id' : DeclId} {d d' : Declaration}
    (hd : g.get? id = some d) (hd' : g.get? id' = some d') (hkey : d.key = d'.key) : id = id' := by
  have hfound := (h.byKey d.key id).mpr ⟨d, hd, rfl⟩
  have hfound' := (h.byKey d.key id').mpr ⟨d', hd', hkey.symm⟩
  exact Option.some.inj (hfound.symm.trans hfound')

lemma Indexed.selects_find (h : g.Indexed) (fullName : String) :
    g.Selects (g.find fullName) (·.fullName = fullName) := by
  rw [h.byFullName, ids]
  constructor
  · exact List.pairwise_lt_range.filter _
  · intro id
    rw [List.mem_filter, List.mem_range, beq_iff_eq]
    constructor
    · rintro ⟨hlt, hname⟩
      obtain ⟨d, hd⟩ := get?_of_lt_size hlt
      exact ⟨d, hd, (fullNameOf_eq hd).symm.trans hname⟩
    · rintro ⟨d, hd, hname⟩
      exact ⟨lt_size_of_get? hd, (fullNameOf_eq hd).trans hname⟩

lemma hasArity_iff {id : DeclId} (hd : g.get? id = some d) (arity : Nat) :
    g.hasArity arity id = true ↔ d.arity = arity := by
  simp [hasArity, hd]

lemma Indexed.preferred_cases (h : g.Indexed) (fullName : String) (arity : Nat)
    (location : Option String) :
    (∃ place id d, location = some place ∧ g.get? id = some d ∧ d.key = ⟨fullName, arity, place⟩ ∧
      g.lookup fullName arity location = some id) ∨
      ((∀ place, location = some place → ¬g.Holds ⟨fullName, arity, place⟩) ∧
        g.lookup fullName arity location = (g.find fullName).find? (g.hasArity arity)) := by
  unfold lookup
  cases hfound : location.bind fun place => g.findQualified ⟨fullName, arity, place⟩ with
  | some id =>
    obtain ⟨place, hplace, hid⟩ := Option.bind_eq_some_iff.mp hfound
    obtain ⟨d, hd, hkey⟩ := (h.byKey _ _).mp hid
    exact Or.inl ⟨place, id, d, hplace, hd, hkey, rfl⟩
  | none =>
    refine Or.inr ⟨?_, rfl⟩
    rintro place rfl ⟨id, hheld⟩
    have hid := (h.byKey _ _).mpr hheld
    rw [Option.bind_some, hid] at hfound
    cases hfound

lemma Indexed.leadsTo_lookup (h : g.Indexed) (fullName : String) (arity : Nat)
    (location : Option String) :
    g.LeadsTo fullName arity location (g.lookup fullName arity location) := by
  obtain ⟨hsorted, hmem⟩ := h.selects_find fullName
  rcases h.preferred_cases fullName arity location with
    ⟨place, id, d, rfl, hd, hkey, hlookup⟩ | ⟨hnone, hlookup⟩
  · rw [hlookup]
    exact .preferred hd hkey
  rw [hlookup]
  cases hfirst : (g.find fullName).find? (g.hasArity arity) with
  | none =>
    apply LeadsTo.absent
    rintro id d hd ⟨hname, harity⟩
    have hrefused := List.find?_eq_none.mp hfirst id ((hmem id).mpr ⟨d, hd, hname⟩)
    exact hrefused ((hasArity_iff hd arity).mpr harity)
  | some id =>
    obtain ⟨hhas, before, after, hsplit, hbefore⟩ := List.find?_eq_some_iff_append.mp hfirst
    obtain ⟨d, hd, hname⟩ := (hmem id).mp (by simp [hsplit])
    refine .first hnone hd hname ((hasArity_iff hd arity).mp hhas) ?_
    -- The list ascends, so what has a lower number stands before and was passed over.
    rintro other hlt e he ⟨hename, hearity⟩
    have hother := (hmem other).mpr ⟨e, he, hename⟩
    rw [hsplit] at hsorted hother
    have hbehind := (List.pairwise_cons.mp (List.pairwise_append.mp hsorted).2.1).1
    rcases List.mem_append.mp hother with hpassed | hrest
    · have hrefused := hbefore other hpassed
      rw [(hasArity_iff he arity).mpr hearity] at hrefused
      cases hrefused
    · rcases List.mem_cons.mp hrest with rfl | hafter
      · exact Nat.lt_irrefl _ hlt
      · exact Nat.lt_asymm hlt (hbehind other hafter)

lemma Indexed.leadsTo_unique (h : g.Indexed) {fullName : String} {arity : Nat}
    {location : Option String} {result result' : Option DeclId}
    (hleads : g.LeadsTo fullName arity location result)
    (hleads' : g.LeadsTo fullName arity location result') : result = result' := by
  cases hleads with
  | preferred hd hkey =>
    cases hleads' with
    | preferred hd' hkey' =>
      exact congrArg some (h.key_injective hd hd' (hkey.trans hkey'.symm))
    | first hnone =>
      exact absurd ⟨_, _, hd, hkey⟩ (hnone _ rfl)
    | absent hnone =>
      exact absurd ⟨congrArg Key.fullName hkey, congrArg Key.arity hkey⟩ (hnone _ _ hd)
  | first hnone hd hname harity hleast =>
    cases hleads' with
    | preferred hd' hkey' =>
      exact absurd ⟨_, _, hd', hkey'⟩ (hnone _ rfl)
    | first _ hd' hname' harity' hleast' =>
      congr 1
      apply Nat.le_antisymm
      · apply Nat.le_of_not_lt
        intro hlt
        exact hleast _ hlt _ hd' ⟨hname', harity'⟩
      · apply Nat.le_of_not_lt
        intro hlt
        exact hleast' _ hlt _ hd ⟨hname, harity⟩
    | absent hnone' =>
      exact absurd ⟨hname, harity⟩ (hnone' _ _ hd)
  | absent hnone =>
    cases hleads' with
    | preferred hd' hkey' =>
      exact absurd ⟨congrArg Key.fullName hkey', congrArg Key.arity hkey'⟩ (hnone _ _ hd')
    | first _ hd' hname' harity' _ =>
      exact absurd ⟨hname', harity'⟩ (hnone _ _ hd')
    | absent _ => rfl

lemma Indexed.lookup_eq_iff (h : g.Indexed) (fullName : String) (arity : Nat)
    (location : Option String) (result : Option DeclId) :
    g.lookup fullName arity location = result ↔ g.LeadsTo fullName arity location result := by
  constructor
  · rintro rfl
    exact h.leadsTo_lookup fullName arity location
  · exact h.leadsTo_unique (h.leadsTo_lookup fullName arity location)

end Graph

/-- A step of a run: a call, or a declaration registered as it is. -/
inductive Step where
  | call (made : Call)
  | register (d : Declaration)

def Step.work : Step → Work Unit
  | .call made => made.work
  | .register d => do let _ ← Work.register d

/-- The atlas after some steps, whether they succeed or fail. -/
def Atlas.afterSteps (a : Atlas) (steps : List Step) : Atlas :=
  steps.foldl (fun a step => (step.work.exec a).2) a

section

variable {P : Graph → Prop} (hadd : ∀ g d, P g → P (g.add d).2)
  (hmodify : ∀ g id (f : Declaration → Declaration),
    (∀ d, (f d).key = d.key) → P g → P (g.modify id f))
  (hrecord : ∀ g id, P g → P (g.recordReferences id))

include hadd hmodify hrecord

/-- A load keeps what registration, changes that leave keys alone and recorded references keep. -/
lemma Work.load_keeps_graph (id : DeclId) : Work.Keeps (P ·.graph) (Work.load id) := by
  have hdefine : ∀ library row, Work.Keeps (P ·.graph) (Work.define library row) :=
    Work.define_keeps fun d _ b hb => hadd b.graph d hb
  apply Work.load_keeps
  intro fuel
  apply Work.loadWith_keeps hdefine
  · intro b other hb
    exact hmodify _ other ({ · with loaded := true }) (fun _ => rfl) hb
  · intro b other hb
    exact hmodify _ other ({ · with loaded := false, shape := {} }) (fun _ => rfl) hb
  · intro b other shape hb
    exact hrecord _ other (hmodify _ other ({ · with shape := shape }) (fun _ => rfl) hb)

lemma Step.keeps_graph (step : Step) : Work.Keeps (P ·.graph) step.work := by
  cases step with
  | call call =>
    refine Call.keeps (fun d _ b hb => hadd b.graph d hb) (fun _ _ hb => hb) ?_ ?_ call
    · intro id value
      apply Work.setData_keeps
      intro b d data hb _ _
      exact hmodify _ id ({ · with data := data }) (fun _ => rfl) hb
    · exact Work.load_keeps_graph hadd hmodify hrecord
  | register d => exact fun b hb => hadd b.graph d hb

/-- What registration, changes that leave keys alone and recorded references keep holds after
any steps. -/
lemma Atlas.afterSteps_graph {a : Atlas} (ha : P a.graph) (steps : List Step) :
    P (a.afterSteps steps).graph := by
  induction steps generalizing a with
  | nil => exact ha
  | cons step steps ih => exact ih (Step.keeps_graph hadd hmodify hrecord step a ha)

end

/-- After any steps: no two declarations have the same key, a key leads to the declaration that
has it, a full name and a location lead to the declarations that have them in the order they
were registered, a lookup finds what it is to find, and registering under a key that is taken
gives the declaration that has it and changes nothing. -/
theorem Atlas.indexes_answer_for_declarations (settings : Settings) (steps : List Step) :
    let g := (({ settings } : Atlas).afterSteps steps).graph
    (∀ id id' d d', g.get? id = some d → g.get? id' = some d' → d.key = d'.key → id = id') ∧
      (∀ key id, g.findQualified key = some id ↔ ∃ d, g.get? id = some d ∧ d.key = key) ∧
      (∀ fullName, g.Selects (g.find fullName) (·.fullName = fullName)) ∧
      (∀ location, g.Selects (g.declarationsIn location) (·.location = location)) ∧
      (∀ fullName arity location result,
        g.lookup fullName arity location = result ↔ g.LeadsTo fullName arity location result) ∧
      ∀ d id e, g.get? id = some e → e.key = d.key → g.add d = (id, g) := by
  have hindexed : (({ settings } : Atlas).afterSteps steps).graph.Indexed :=
    Atlas.afterSteps_graph (fun _ d hg => hg.add d) (fun _ id _ hf hg => hg.modify id hf)
      (fun _ id hg => hg.recordReferences id) .initial steps
  have hlocated : (({ settings } : Atlas).afterSteps steps).graph.Located :=
    Atlas.afterSteps_graph (fun _ d hg => hg.add d) (fun _ id _ hf hg => hg.modify id hf)
      (fun _ id hg => hg.recordReferences id) .initial steps
  refine ⟨?_, hindexed.byKey, hindexed.selects_find, hlocated, hindexed.lookup_eq_iff, ?_⟩
  · intro id id' d d' hd hd' hkey
    exact hindexed.key_injective hd hd' hkey
  · intro d id e he hkey
    exact Graph.add_of_taken ((hindexed.byKey d.key id).mpr ⟨e, he, hkey⟩)

end TypeAtlas
