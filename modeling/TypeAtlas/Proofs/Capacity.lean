import Mathlib.Data.Finset.Card
import TypeAtlas.Proofs.Indexing

/-!
Room for nested loads. Main statement: a load that begins inside others goes as one that is
called from outside, however deep it is nested.

Each load that is under way has marked a declaration of its own. All declarations that can
come up have keys of those registered or of definitions in the modules at hand, and there
are no more of these keys than the capacity says.
-/

namespace TypeAtlas

variable {d : Declaration} {library : Library}

namespace Graph

variable {g : Graph}

/-- The declarations whose load has begun. -/
def marked (g : Graph) : Finset DeclId := {id ∈ Finset.range g.size | g.isLoaded id = true}

lemma mem_marked {id : DeclId} : id ∈ g.marked ↔ g.isLoaded id = true := by
  simp only [marked, Finset.mem_filter, Finset.mem_range, and_iff_right_iff_imp]
  exact lt_size_of_isLoaded

end Graph

def Library.DefinesIn (library : Library) (keys : Finset Key) : Prop :=
  ∀ row d, Declaration.ofDefinition none library row = .ok d → d.key ∈ keys

namespace Atlas

/-- Only declarations with keys in the set can come up, and fewer than `n` of them are
unmarked. -/
structure Room (keys : Finset Key) (n : Nat) (a : Atlas) : Prop where
  indexed : a.graph.Indexed
  registered : ∀ id d, a.graph.get? id = some d → d.key ∈ keys
  modules : ∀ id d m row, a.graph.get? id = some d → d.provenance = .module m row →
    (⟨m, d.location⟩ : Library).DefinesIn keys
  libraries : ∀ library ∈ a.libraries, library.DefinesIn keys
  enough : keys.card < n + a.graph.marked.card

namespace Room

variable {keys keys' : Finset Key} {n n' : Nat} {a b : Atlas} {id : DeclId}

/-- No two declarations share a key, so no more can be marked than there are keys. -/
lemma marked_card_le (h : a.Room keys n) : a.graph.marked.card ≤ keys.card := by
  have hcard : a.graph.marked.card ≤ (keys.map Function.Embedding.some).card := by
    apply Finset.card_le_card_of_injOn fun id => (a.graph.get? id).map (·.key)
    · intro id hid
      obtain ⟨d, hd, -⟩ := Graph.isLoaded_iff.mp (Graph.mem_marked.mp hid)
      simpa [hd] using h.registered id d hd
    · intro id hid other hother heq
      obtain ⟨d, hd, -⟩ := Graph.isLoaded_iff.mp (Graph.mem_marked.mp hid)
      obtain ⟨e, he, -⟩ := Graph.isLoaded_iff.mp (Graph.mem_marked.mp hother)
      have hkey : d.key = e.key := by simpa [hd, he] using heq
      have hfirst := (h.indexed.byKey e.key id).mpr ⟨d, hd, hkey⟩
      have hsecond := (h.indexed.byKey e.key other).mpr ⟨e, he, rfl⟩
      exact Option.some.inj (hfirst.symm.trans hsecond)
  rwa [Finset.card_map] at hcard

lemma ne_zero (h : a.Room keys n) : n ≠ 0 := by
  have hmarked := h.marked_card_le
  have henough := h.enough
  omega

lemma inter (h : a.Room keys n) (h' : a.Room keys' n') : a.Room (keys ∩ keys') (min n n') where
  indexed := h.indexed
  registered := fun id d hd =>
    Finset.mem_inter.mpr ⟨h.registered id d hd, h'.registered id d hd⟩
  modules := fun id d m row hd hmodule row' e he =>
    Finset.mem_inter.mpr ⟨h.modules id d m row hd hmodule row' e he, h'.modules id d m row hd hmodule row' e he⟩
  libraries := fun library hlibrary row e he =>
    Finset.mem_inter.mpr ⟨h.libraries library hlibrary row e he, h'.libraries library hlibrary row e he⟩
  enough := by
    have hleft : (keys ∩ keys').card ≤ keys.card := Finset.card_le_card Finset.inter_subset_left
    have hright : (keys ∩ keys').card ≤ keys'.card := Finset.card_le_card Finset.inter_subset_right
    have henough := h.enough
    have henough' := h'.enough
    omega

/-- A step that keeps keys and origins has to count its marks only. -/
lemma change (h : a.Room keys n) {f : Declaration → Declaration}
    (hget : ∀ other, b.graph.get? other =
      if id = other then (a.graph.get? other).map f else a.graph.get? other)
    (hf : ∀ d, (f d).key = d.key ∧ (f d).provenance = d.provenance) (hindexed : b.graph.Indexed)
    (hlibraries : b.libraries = a.libraries)
    (henough : keys.card < n' + b.graph.marked.card) : b.Room keys n' := by
  have hold : ∀ other e, b.graph.get? other = some e →
      ∃ d, a.graph.get? other = some d ∧ e.key = d.key ∧ e.provenance = d.provenance := by
    intro other e he
    rw [hget] at he
    split at he
    · obtain ⟨d, hd, rfl⟩ := Option.map_eq_some_iff.mp he
      exact ⟨d, hd, hf d⟩
    · exact ⟨e, he, rfl, rfl⟩
  refine ⟨hindexed, ?_, ?_, ?_, henough⟩
  · intro other e he
    obtain ⟨d, hd, hkey, -⟩ := hold other e he
    rw [hkey]
    exact h.registered other d hd
  · intro other e m row he hmodule
    obtain ⟨d, hd, hkey, hprovenance⟩ := hold other e he
    have hlocation : e.location = d.location := congrArg Key.location hkey
    rw [hlocation]
    exact h.modules other d m row hd (hprovenance.symm.trans hmodule)
  · rw [hlibraries]
    exact h.libraries

/-- A load that begins takes one place. -/
lemma flag (h : a.Room keys (n + 1)) (hd : a.graph.get? id = some d) (hunloaded : d.loaded = false) :
    (a.flag id true).Room keys n := by
  have hnew : id ∉ a.graph.marked := by
    rw [Graph.mem_marked, Graph.isLoaded_of_get? hd, hunloaded]
    exact Bool.false_ne_true
  have hsub : insert id a.graph.marked ⊆ (a.flag id true).graph.marked := by
    intro other hother
    rw [Graph.mem_marked, Graph.isLoaded_iff, get?_flag]
    rcases Finset.mem_insert.mp hother with rfl | hother
    · rw [if_pos rfl, hd]
      exact ⟨_, rfl, rfl⟩
    · obtain ⟨e, he, hloaded⟩ := Graph.isLoaded_iff.mp (Graph.mem_marked.mp hother)
      have hne : id ≠ other := by
        rintro rfl
        exact hnew hother
      rw [if_neg hne]
      exact ⟨e, he, hloaded⟩
  have hcard := Finset.card_le_card hsub
  rw [Finset.card_insert_of_notMem hnew] at hcard
  have henough := h.enough
  apply h.change (fun other => a.get?_flag id other true) (fun _ => ⟨rfl, rfl⟩)
    (h.indexed.modify id fun _ => rfl) rfl
  omega

/-- A load that fails gives its place back. -/
lemma rollBack (h : a.Room keys n) (id : DeclId) : (a.rollBack id).Room keys (n + 1) := by
  have hsub : a.graph.marked.erase id ⊆ (a.rollBack id).graph.marked := by
    intro other hother
    obtain ⟨hne, hother⟩ := Finset.mem_erase.mp hother
    rw [Graph.mem_marked, Graph.isLoaded_iff, get?_rollBack, if_neg (Ne.symm hne)]
    exact Graph.isLoaded_iff.mp (Graph.mem_marked.mp hother)
  have hcard := Finset.card_le_card hsub
  have herase := Finset.pred_card_le_card_erase (s := a.graph.marked) (a := id)
  have henough := h.enough
  apply h.change (fun other => a.get?_rollBack id other) (fun _ => ⟨rfl, rfl⟩)
    (h.indexed.modify id fun _ => rfl) rfl
  omega

lemma publish (h : a.Room keys n) (id : DeclId) (shape : Shape) :
    (a.publish id shape).Room keys (n + 1) := by
  have hsub : a.graph.marked ⊆ (a.publish id shape).graph.marked := by
    intro other hother
    exact Graph.mem_marked.mpr (isLoaded_publish (Graph.mem_marked.mp hother) id shape)
  have hindexed : (a.publish id shape).graph.Indexed :=
    (h.indexed.modify id (f := ({ · with shape := shape })) fun _ => rfl).recordReferences id
  have hcard := Finset.card_le_card hsub
  have henough := h.enough
  apply h.change (fun other => a.get?_publish id other shape) (fun _ => ⟨rfl, rfl⟩) hindexed rfl
  omega

/-- A definition of a module at hand brings up nothing new. -/
lemma register (h : a.Room keys n) (hlibrary : library.DefinesIn keys) {row : Nat}
    (hd : Declaration.ofDefinition none library row = .ok d) :
    ({ a with graph := (a.graph.add d).2 } : Atlas).Room keys n where
  indexed := h.indexed.add d
  registered := by
    intro id e he
    rcases Graph.get?_add_eq_some he with hold | ⟨-, rfl, -, -⟩
    · exact h.registered id e hold
    · exact hlibrary row e hd
  modules := by
    intro id e m row' he hmodule
    rcases Graph.get?_add_eq_some he with hold | ⟨-, rfl, -, -⟩
    · exact h.modules id e m row' hold hmodule
    · obtain ⟨kind, ns, raw, generics, -, -, -, rfl⟩ := Declaration.ofDefinition_eq_ok hd
      cases hmodule
      exact hlibrary
  libraries := h.libraries
  enough := by
    have hsub : a.graph.marked ⊆ (a.graph.add d).2.marked := by
      intro other hother
      obtain ⟨e, he, hloaded⟩ := Graph.isLoaded_iff.mp (Graph.mem_marked.mp hother)
      rw [Graph.mem_marked, Graph.isLoaded_iff, Graph.get?_add d (Graph.lt_size_of_get? he)]
      exact ⟨e, he, hloaded⟩
    exact Nat.lt_of_lt_of_le h.enough (Nat.add_le_add_left (Finset.card_le_card hsub) n)

end Room

end Atlas

def Library.definedKeys (library : Library) : List Key :=
  (List.range library.module.typeDefs.size).filterMap fun i =>
    (Declaration.ofDefinition none library (i + 1)).toOption.map (·.key)

lemma Library.mem_definedKeys {row : Nat} (hd : Declaration.ofDefinition none library row = .ok d) :
    d.key ∈ library.definedKeys := by
  obtain ⟨kind, ns, raw, generics, -, hname, -, -⟩ := Declaration.ofDefinition_eq_ok hd
  cases row with
  | zero => cases hname
  | succ i =>
    have hi : i < library.module.typeDefs.size := by
      by_contra hlarge
      have hnone : library.module.typeDefs[i]? = none := Array.getElem?_eq_none (Nat.not_lt.mp hlarge)
      simp [Metadata.Module.typeDefName, Metadata.Module.typeDef, Metadata.Module.row, hnone, bind,
        Except.bind] at hname
    rw [definedKeys, List.mem_filterMap]
    exact ⟨i, List.mem_range.mpr hi, by rw [hd]; rfl⟩

lemma Library.length_definedKeys_le (library : Library) :
    library.definedKeys.length ≤ library.module.typeDefs.size := by
  have hlength := List.length_filterMap_le (fun i =>
    (Declaration.ofDefinition none library (i + 1)).toOption.map (·.key))
    (List.range library.module.typeDefs.size)
  rwa [List.length_range] at hlength

def Declaration.moduleKeys (d : Declaration) : List Key :=
  match d.provenance with
  | .source => []
  | .module m _ => Library.definedKeys ⟨m, d.location⟩

namespace Atlas

/-- The keys of all that can come up. -/
def reach (a : Atlas) : List Key :=
  a.graph.declarations.toList.map (·.key) ++ a.libraries.flatMap Library.definedKeys ++
    a.graph.declarations.toList.flatMap Declaration.moduleKeys

lemma length_flatMap_le_foldl {α : Type} {f : α → List Key} {size : α → Nat}
    (h : ∀ x, (f x).length ≤ size x) (xs : List α) (n : Nat) :
    n + (xs.flatMap f).length ≤ xs.foldl (fun n x => n + size x) n := by
  induction xs generalizing n with
  | nil => simp
  | cons x xs ih =>
    have hx := h x
    have hrest := ih (n + size x)
    rw [List.flatMap_cons, List.length_append, List.foldl_cons]
    omega

lemma length_reach_le (a : Atlas) : a.reach.length ≤ a.capacity := by
  have hlibraries := length_flatMap_le_foldl Library.length_definedKeys_le a.libraries 0
  unfold capacity
  rw [← Array.foldl_toList]
  apply Nat.le_trans ?_ (length_flatMap_le_foldl (f := Declaration.moduleKeys) ?_ _ _)
  · simp only [reach, List.length_append, List.length_map, Array.length_toList, Graph.size]
    omega
  · intro d
    unfold Declaration.moduleKeys
    cases d.provenance with
    | source => exact Nat.le_refl 0
    | module m row => exact Library.length_definedKeys_le _

/-- There is room for as many loads as the capacity says, and no more declarations than that
can come up. -/
lemma exists_room {a : Atlas} (ha : a.graph.Indexed) :
    ∃ keys, a.Room keys (a.capacity + 1) ∧ keys.card ≤ a.capacity := by
  have hmem : ∀ {id d}, a.graph.get? id = some d → d ∈ a.graph.declarations.toList := by
    intro id d hd
    rw [Array.mem_toList_iff]
    exact Array.mem_of_getElem? hd
  have hcard : a.reach.toFinset.card ≤ a.capacity :=
    Nat.le_trans (List.toFinset_card_le a.reach) a.length_reach_le
  refine ⟨a.reach.toFinset, ⟨ha, ?_, ?_, ?_, ?_⟩, hcard⟩
  · intro id d hd
    rw [List.mem_toFinset, reach, List.mem_append, List.mem_append]
    exact .inl (.inl (List.mem_map_of_mem (hmem hd)))
  · intro id d m row hd hmodule row' e he
    rw [List.mem_toFinset, reach, List.mem_append]
    refine .inr (List.mem_flatMap.mpr ⟨d, hmem hd, ?_⟩)
    rw [Declaration.moduleKeys, hmodule]
    exact Library.mem_definedKeys he
  · intro library hlibrary row e he
    rw [List.mem_toFinset, reach, List.mem_append, List.mem_append]
    exact .inl (.inr (List.mem_flatMap.mpr ⟨library, hlibrary, Library.mem_definedKeys he⟩))
  · omega

end Atlas

namespace Work

variable {keys : Finset Key} {n : Nat} {a : Atlas}

lemma define_keeps_room (hlibrary : library.DefinesIn keys) (row : Nat) :
    Keeps (Atlas.Room keys n) (define library row) := by
  intro a ha
  rcases exec_define_cases library row a with ⟨r, hrun⟩ | ⟨d, hd, hrun⟩
  · rwa [hrun]
  · rw [hrun]
    exact ha.register hlibrary hd

lemma room_steady : (Regime.oneRun (Atlas.Room keys n)).Steady (Library.DefinesIn · keys) :=
  oneRun_steady (fun _ ha => ha.libraries) fun _ row hlibrary => define_keeps_room hlibrary row

lemma loadWith_keeps_room (fuel : Nat) (id : DeclId) : Keeps (Atlas.Room keys n) (loadWith fuel id) := by
  induction fuel generalizing n id with
  | zero => exact Keeps.throw _
  | succ fuel ih =>
    intro a ha
    obtain ⟨n, rfl⟩ := Nat.exists_eq_succ_of_ne_zero ha.ne_zero
    rcases exec_loadWith_cases fuel id a with ⟨hexec, -⟩ | ⟨d, r, b, hd, hloaded, hrun, -, hruns⟩
    · rwa [hexec]
    have hkeeps : Keeps (Atlas.Room keys n) (shapeOf (followWith (loadWith fuel)) d) := by
      apply Tracks.keeps
      apply shapeOf_tracks room_steady
      · exact fun use => (followWith_keeps (fun id => ih id) use).tracks fun _ _ => trivial
      · exact fun m row hmodule => ha.modules id d m row hd hmodule
    have hwork := hkeeps _ (ha.flag hd hloaded)
    rw [hrun] at hwork
    rcases hruns with ⟨shape, -, hexec⟩ | ⟨fault, -, hexec⟩ <;> rw [hexec]
    · exact hwork.publish id _
    · exact hwork.rollBack id

/-- Loads that have room go alike, whatever more is left to them. -/
lemma exec_loadWith_of_room {fuel fuel' : Nat} (hfuel : n ≤ fuel) (hfuel' : n ≤ fuel') (id : DeclId)
    (ha : a.Room keys n) : (loadWith fuel id).exec a = (loadWith fuel' id).exec a := by
  induction n generalizing fuel fuel' id a with
  | zero => exact absurd rfl ha.ne_zero
  | succ n ih =>
    obtain ⟨fuel, rfl⟩ : ∃ k, fuel = k + 1 := ⟨fuel - 1, by omega⟩
    obtain ⟨fuel', rfl⟩ : ∃ k, fuel' = k + 1 := ⟨fuel' - 1, by omega⟩
    rw [exec_loadWith, exec_loadWith]
    cases hd : a.graph.get? id with
    | none => dsimp only
    | some d =>
      dsimp only
      cases hloaded : d.loaded with
      | true => rw [if_pos rfl, if_pos rfl]
      | false =>
        have hfollowed : Followed (Regime.oneRun (Atlas.Room keys n)) (followWith (loadWith fuel))
            (followWith (loadWith fuel')) := by
          intro use
          have hkeeps : Keeps (Atlas.Room keys n) (followWith (loadWith fuel) use) :=
            followWith_keeps (loadWith_keeps_room fuel) use
          apply hkeeps.tracks_of_eq _ fun _ _ => trivial
          intro b hb
          exact exec_followWith_congr (fun other => ih (by omega) (by omega) other hb) use
        have htracks : Tracks (Regime.oneRun (Atlas.Room keys n)) [] Shape.uses
            (shapeOf (followWith (loadWith fuel)) d) (shapeOf (followWith (loadWith fuel')) d) := by
          apply shapeOf_tracks room_steady hfollowed
          exact fun m row hmodule => ha.modules id d m row hd hmodule
        rw [htracks.exec_eq (ha.flag hd hloaded)]

/-- A load inside others goes as one from outside. -/
lemma exec_loadWith_eq_load {fuel : Nat} (hfuel : n ≤ fuel) (id : DeclId)
    (ha : a.Room keys n) : (loadWith fuel id).exec a = (load id).exec a := by
  obtain ⟨keys', ha', -⟩ := Atlas.exists_room ha.indexed
  rw [exec_load]
  apply exec_loadWith_of_room _ _ id (ha.inter ha')
  · omega
  · omega

end Work

end TypeAtlas
