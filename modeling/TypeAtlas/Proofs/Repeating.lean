import TypeAtlas.Proofs.Completeness

/-!
Work that can be done again. Definitions, lookups and types of other assemblies that were
found once are found again in every wider atlas, and then nothing is registered.
-/

namespace TypeAtlas

variable {arity : Nat} {fullName : String}

namespace Atlas

/-- The second atlas has what the first one has, and the same modules at hand. -/
structure Widens (a b : Atlas) : Prop where
  settings : b.settings = a.settings
  libraries : b.libraries = a.libraries
  lasts : a.Lasts b
  indexed : b.graph.Indexed

namespace Widens

variable {a b c : Atlas}

lemma refl (ha : a.graph.Indexed) : a.Widens a := ⟨rfl, rfl, .refl a, ha⟩

lemma trans (h : a.Widens b) (h' : b.Widens c) : a.Widens c where
  settings := h'.settings.trans h.settings
  libraries := h'.libraries.trans h.libraries
  lasts := h.lasts.trans h'.lasts
  indexed := h'.indexed

/-- A lookup that finds nothing found nothing before. -/
lemma lookup_eq_none (h : a.Widens b) (ha : a.graph.Indexed) {location : Option String}
    (hnone : b.graph.lookup fullName arity location = none) : a.graph.lookup fullName arity location = none := by
  cases hfound : a.graph.lookup fullName arity location with
  | none => rfl
  | some id =>
    obtain ⟨d, hd, rfl, rfl⟩ := ha.get?_lookup hfound
    obtain ⟨e, he, hbecomes, -⟩ := h.lasts id d hd
    have hstill := h.indexed.lookup_ne_none he location
    rw [hbecomes.header] at hstill
    exact absurd hnone hstill

end Widens

end Atlas

namespace Work

variable {a b : Atlas} {library : Library} {scope : Scope} {α : Type}

lemma exec_define_of_defined {row : Nat} {key : Key} (hkey : library.markedKey row = .ok key)
    (hdefined : a.Defined library row) : ∃ id, (define library row).exec a = (.ok id, a) := by
  obtain ⟨own, id, hid, hown⟩ := hdefined
  rw [exec_define, hkey]
  dsimp only
  cases hfound : a.graph.findQualified key with
  | some other => exact ⟨other, rfl⟩
  | none =>
    rcases hown with hmarked | ⟨d, hd, rfl⟩
    · cases hkey.symm.trans hmarked
      rw [hfound] at hid
      cases hid
    · rw [hd]
      dsimp only
      rw [Graph.add_of_taken hid]
      exact ⟨id, rfl⟩

/-- Work that did well once does well again on what it left behind, and then changes nothing. -/
def Repeats {α : Type} (w : Work α) (a : Atlas) : Prop :=
  ∀ x b, w.exec a = (.ok x, b) → a.Widens b ∧ ∀ c, b.Widens c → ∃ y, w.exec c = (.ok y, c)

lemma Repeats.map {β : Type} {w : Work α} {g : α → β} (h : Repeats w a) : Repeats (do return g (← w)) a := by
  intro y b hrun
  obtain ⟨x, c, hw, hpure⟩ := exec_bind_eq_ok hrun
  cases hpure
  obtain ⟨hwidens, hagain⟩ := h x b hw
  refine ⟨hwidens, fun d hd => ?_⟩
  obtain ⟨z, hz⟩ := hagain d hd
  exact ⟨g z, by rw [exec_bind, hz]; rfl⟩

lemma define_repeats (ha : a.graph.Indexed) (library : Library) (row : Nat) : Repeats (define library row) a := by
  intro id b h
  have hb : b = ((define library row).exec a).2 := by rw [h]
  have hwidens : a.Widens b := by
    have hsame : b.settings = a.settings ∧ b.libraries = a.libraries := by
      rcases exec_define_cases library row a with ⟨r, hrun⟩ | ⟨d, -, hrun⟩
      · simp [hb, hrun]
      · simp [hb, hrun]
    refine ⟨hsame.1, hsame.2, ?_, ?_⟩
    · rw [hb]
      exact define_keeps (fun d _ => register_keeps_lasts a d) library row a (.refl a)
    · rw [hb]
      exact define_keeps (fun d _ => register_keeps_indexed d) library row a ha
  refine ⟨hwidens, fun c hc => ?_⟩
  have hdefined := (defined_of_define ha h).lasts hc.lasts hwidens.indexed hc.indexed
  obtain ⟨key, hkey, -⟩ := define_eq_ok h
  exact exec_define_of_defined hkey hdefined

/-- What is looked up first is found again, or else was not found before either. -/
lemma lookup_repeats (ha : a.graph.Indexed) {location : Atlas → Option String} {f : DeclId → α}
    {rest : Atlas → Work α} (hlocation : ∀ c, c.libraries = a.libraries → location c = location a)
    (hsame : ∀ c, c.libraries = a.libraries → rest c = rest a) (hrest : Repeats (rest a) a) :
    Repeats (do
      let atlas ← get
      match atlas.graph.lookup fullName arity (location atlas) with
      | some id => return f id
      | none => rest atlas) a := by
  have hexec : ∀ c : Atlas, Work.exec (do
      let atlas ← get
      match atlas.graph.lookup fullName arity (location atlas) with
      | some id => return f id
      | none => rest atlas) c =
        match c.graph.lookup fullName arity (location c) with
        | some id => (.ok (f id), c)
        | none => (rest c).exec c := by
    intro c
    rw [exec_bind, exec_get]
    dsimp only
    split <;> rfl
  intro x b h
  rw [hexec] at h
  simp only [hexec]
  cases hlookup : a.graph.lookup fullName arity (location a) with
  | some id =>
    rw [hlookup] at h
    cases h
    refine ⟨.refl ha, fun c hc => ?_⟩
    cases hfound : c.graph.lookup fullName arity (location c) with
    | some other => exact ⟨_, rfl⟩
    | none =>
      rw [hlocation c hc.libraries] at hfound
      rw [hc.lookup_eq_none ha hfound] at hlookup
      cases hlookup
  | none =>
    rw [hlookup] at h
    obtain ⟨hwidens, hagain⟩ := hrest x b h
    refine ⟨hwidens, fun c hc => ?_⟩
    cases c.graph.lookup fullName arity (location c) with
    | some other => exact ⟨_, rfl⟩
    | none =>
      rw [hsame c (hwidens.trans hc).libraries]
      exact hagain c hc

lemma defineFirst_repeats (ha : a.graph.Indexed) {names : List String} {f : DeclId → α} {fault : Fault} :
    Repeats (do
      match ← defineFirst arity names with
      | some id => return f id
      | none => throw fault) a := by
  have hexec : ∀ c : Atlas, c.libraries = a.libraries → Work.exec (do
      match ← defineFirst arity names with
      | some id => return f id
      | none => throw fault) c =
        (names.findSome? (Library.first? a.libraries arity)).elim (.error fault, c) fun entry =>
          Work.exec (do return f (← define entry.1 entry.2)) c := by
    intro c hc
    unfold defineFirst
    simp only [bind_assoc]
    rw [exec_bind, exec_get]
    dsimp only
    rw [hc]
    cases names.findSome? (Library.first? a.libraries arity) with
    | none => rfl
    | some entry => simp
  intro x b h
  rw [hexec a rfl] at h
  cases hfirst : names.findSome? (Library.first? a.libraries arity) with
  | none =>
    rw [hfirst] at h
    cases h
  | some entry =>
    rw [hfirst] at h
    obtain ⟨hwidens, hagain⟩ := (define_repeats ha entry.1 entry.2).map x b h
    refine ⟨hwidens, fun c hc => ?_⟩
    rw [hexec c (hwidens.trans hc).libraries, hfirst]
    exact hagain c hc

lemma external_repeats (ha : a.graph.Indexed) (scope : Scope) (stored assembly : String) :
    Repeats (external scope stored assembly) a := by
  unfold external
  dsimp only
  split
  · intro x b h
    cases h
    exact ⟨.refl ha, fun c _ => ⟨_, rfl⟩⟩
  · refine lookup_repeats ha ?_ ?_ ?_
    · intro c hc
      rw [hc]
    · intro c hc
      rw [hc]
    · split
      · exact (define_repeats ha _ _).map
      · exact defineFirst_repeats ha

end Work

end TypeAtlas
