import TypeAtlas.Proofs.Breadth
import TypeAtlas.Proofs.Closure
import TypeAtlas.Proofs.LazyLoading

/-!
Loading in breadth where following a use loads nothing. Main statement: if loading a
declaration and what it leads to succeeds, it has met exactly the declarations within the
budget, counted by what the loaded shapes refer to in the end; all of them are loaded, and
nothing else was. It fails for want of an end only where a chain of rows leads back to itself.

The graph grows and fills in while it is searched. But a shape is published before what it
refers to is queued, and a published shape never changes, so the search goes as one in the
graph that is left behind.
-/

namespace TypeAtlas

namespace Atlas

/-- An atlas that loads nothing on its own and in which every reference leads to a registered
declaration. -/
structure Idle (a : Atlas) : Prop where
  policy : a.settings.loadPolicy = .lazy
  indexed : a.graph.Indexed
  settled : a.graph.Settled
  linked : ∀ id d, a.graph.get? id = some d → ∀ target ∈ d.shape.references.map (·.2),
    target < a.graph.size

/-- No chain of rows leads back to itself, in no module that was made available and in no
module of a declaration. -/
structure Acyclic (a : Atlas) : Prop where
  libraries : ∀ library ∈ a.libraries, library.module.Acyclic
  modules : ∀ id d m row, a.graph.get? id = some d → d.provenance = .module m row → m.Acyclic

variable {a b : Atlas} {id other : DeclId} {d : Declaration} {added : List Declaration}
  {shape : Shape}

lemma Acyclic.atHand (h : a.Acyclic) (hd : a.graph.get? id = some d) {library : Library}
    (hlibrary : a.AtHand d library) : library.module.Acyclic := by
  rcases hlibrary with hmem | ⟨row, hprovenance, -⟩
  · exact h.libraries library hmem
  · exact h.modules id d library.module row hd hprovenance

namespace Supplied

/-- What was registered on demand has no shape yet. -/
lemma idle (h : a.Supplied (a.AtHand d) added b) (ha : a.Idle) : b.Idle where
  policy := by
    rw [h.settings]
    exact ha.policy
  indexed := h.indexed ha.indexed
  settled := h.settled ha.settled
  linked := by
    intro other e he target htarget
    rcases h.get?_cases he with hold | ⟨-, hadded⟩
    · rw [h.size_eq]
      exact Nat.lt_add_right _ (ha.linked other e hold target htarget)
    · obtain ⟨library, row, -, hdefined⟩ := h.defined hadded
      rw [(Declaration.fresh_ofDefinition hdefined).empty] at htarget
      cases htarget

lemma acyclic (h : a.Supplied (a.AtHand d) added b) (hd : a.graph.get? id = some d)
    (ha : a.Acyclic) : b.Acyclic where
  libraries := by
    rw [h.libraries]
    exact ha.libraries
  modules := by
    intro other e m row he hprovenance
    rcases h.get?_cases he with hold | ⟨-, hadded⟩
    · exact ha.modules other e m row hold hprovenance
    · obtain ⟨library, row', hlibrary, hdefined⟩ := h.defined hadded
      obtain ⟨kind, ns, raw, generics, -, -, -, rfl⟩ := Declaration.ofDefinition_eq_ok hdefined
      cases hprovenance
      exact ha.atHand hd hlibrary

lemma isLoaded (h : a.Supplied (a.AtHand d) added b) (hother : b.graph.isLoaded other = true) :
    a.graph.isLoaded other = true := by
  obtain ⟨e, he, hloaded⟩ := Graph.isLoaded_iff.mp hother
  rcases h.get?_cases he with hold | ⟨-, hadded⟩
  · exact Graph.isLoaded_iff.mpr ⟨e, hold, hloaded⟩
  · obtain ⟨library, row, -, hdefined⟩ := h.defined hadded
    rw [(Declaration.fresh_ofDefinition hdefined).unloaded] at hloaded
    cases hloaded

end Supplied

lemma get?_publish_flag (b : Atlas) (id other : DeclId) (shape : Shape) :
    ((b.flag id true).publish id shape).graph.get? other =
      if id = other then (b.graph.get? other).map ({ · with loaded := true, shape := shape })
      else b.graph.get? other := by
  rw [get?_publish, get?_flag]
  split
  · rw [Option.map_map]
    rfl
  · rfl

lemma size_publish_flag (b : Atlas) (id : DeclId) (shape : Shape) :
    ((b.flag id true).publish id shape).graph.size = b.graph.size := by
  simp [publish, flag]

lemma Idle.publish (hb : b.Idle) (hindexed : ((b.flag id true).publish id shape).graph.Indexed)
    (hsettled : ((b.flag id true).publish id shape).graph.Settled)
    (htargets : ∀ target ∈ shape.references.map (·.2), target < b.graph.size) :
    ((b.flag id true).publish id shape).Idle where
  policy := hb.policy
  indexed := hindexed
  settled := hsettled
  linked := by
    intro other e he target htarget
    rw [get?_publish_flag] at he
    rw [size_publish_flag]
    split at he
    · obtain ⟨d, -, rfl⟩ := Option.map_eq_some_iff.mp he
      exact htargets target htarget
    · exact hb.linked other e he target htarget

lemma Acyclic.publish (hb : b.Acyclic) (id : DeclId) (shape : Shape) :
    ((b.flag id true).publish id shape).Acyclic where
  libraries := hb.libraries
  modules := by
    intro other e m row he hprovenance
    rw [get?_publish_flag] at he
    split at he
    · obtain ⟨d, hd, rfl⟩ := Option.map_eq_some_iff.mp he
      exact hb.modules other d m row hd hprovenance
    · exact hb.modules other e m row he hprovenance

end Atlas

namespace Work

open Search (onward)

variable {a b c : Atlas} {id : DeclId} {budget : Option Nat} {fuel n : Nat} {visited : List DeclId}
  {queue : List (DeclId × Nat)}

lemma lasts_of_load {r : Except Fault Unit} (hload : (load id).exec a = (r, c)) : a.Lasts c := by
  have hkeeps := load_keeps_lasts a id a (.refl a)
  rwa [hload] at hkeeps

lemma load_keeps_idle (id : DeclId) : Keeps Atlas.Idle (load id) := by
  intro a ha
  have hindexed := load_keeps_indexed id a ha.indexed
  have hsettled := load_keeps_settled id a ha.settled
  rcases exec_load_lazy ha.policy ha.indexed ha.settled id with
    ⟨hrun, -⟩ | ⟨d, added, b, -, -, hb, ⟨shape, hrun, htargets⟩ | ⟨fault, hrun, -⟩⟩
  · rwa [hrun]
  · rw [hrun] at hindexed hsettled ⊢
    exact (hb.idle ha).publish hindexed hsettled htargets
  · rw [hrun]
    exact hb.idle ha

/-- A load that succeeds marks its own declaration and no other. -/
lemma marks_of_load (ha : a.Idle) (hid : id < a.graph.size) (hrun : (load id).exec a = (.ok (), c)) :
    a.graph.size ≤ c.graph.size ∧ c.graph.isLoaded id = true ∧
      ∀ other, c.graph.isLoaded other = true → other = id ∨ a.graph.isLoaded other = true := by
  rcases exec_load_lazy ha.policy ha.indexed ha.settled id with
    ⟨hsame, hloaded⟩ | ⟨d, added, b, hd, -, hb, ⟨shape, hdone, -⟩ | ⟨fault, hfailed, -⟩⟩
  · rw [hsame] at hrun
    cases hrun
    obtain ⟨d, hd⟩ := Graph.get?_of_lt_size hid
    exact ⟨Nat.le_refl _, Graph.isLoaded_iff.mpr ⟨d, hd, hloaded d hd⟩, fun _ h => .inr h⟩
  · rw [hdone] at hrun
    cases hrun
    refine ⟨?_, ?_, ?_⟩
    · rw [Atlas.size_publish_flag, hb.size_eq]
      exact Nat.le_add_right _ _
    · rw [Graph.isLoaded_iff, Atlas.get?_publish_flag, if_pos rfl, hb.get?_of_lt hid, hd]
      exact ⟨_, rfl, rfl⟩
    · intro other hother
      rw [Graph.isLoaded_iff, Atlas.get?_publish_flag] at hother
      split at hother
      · rename_i heq
        exact .inl heq.symm
      · exact .inr (hb.isLoaded (Graph.isLoaded_iff.mpr hother))
  · rw [hfailed] at hrun
    cases hrun

/-- A load in an idle atlas without cycles of rows comes to an end and makes none. -/
lemma acyclic_of_load (ha : a.Idle) (hacyclic : a.Acyclic) (id : DeclId) :
    ((load id).exec a).1 ≠ .error .endless ∧
      (((load id).exec a).1 = .ok () → ((load id).exec a).2.Acyclic) := by
  rcases exec_load_lazy ha.policy ha.indexed ha.settled id with
    ⟨hrun, -⟩ | ⟨d, added, b, hd, -, hb, ⟨shape, hrun, -⟩ | ⟨fault, hrun, hfault⟩⟩
  · rw [hrun]
    exact ⟨nofun, fun _ => hacyclic⟩
  · rw [hrun]
    exact ⟨nofun, fun _ => (hb.acyclic hd hacyclic).publish id shape⟩
  · rw [hrun]
    refine ⟨?_, nofun⟩
    intro heq
    exact hfault (fun _ hlibrary => hacyclic.atHand hd hlibrary) (Except.error.inj heq)

/-- A queue holds nothing new, or it goes on with the first declaration that was not met. -/
lemma queue_cases (visited : List DeclId) (queue : List (DeclId × Nat)) :
    (queue.dropWhile (visited.contains ·.1) = [] ∧ ∀ entry ∈ queue, entry.1 ∈ visited) ∨
      ∃ passed id depth rest, queue = passed ++ (id, depth) :: rest ∧
        queue.dropWhile (visited.contains ·.1) = (id, depth) :: rest ∧
        (∀ entry ∈ passed, entry.1 ∈ visited) ∧ id ∉ visited := by
  induction queue with
  | nil => simp
  | cons entry queue ih =>
    obtain ⟨id, depth⟩ := entry
    by_cases hid : id ∈ visited
    · have hdrop : ((id, depth) :: queue).dropWhile (visited.contains ·.1) =
          queue.dropWhile (visited.contains ·.1) := by
        simp [hid]
      rw [hdrop]
      rcases ih with ⟨hnone, hall⟩ | ⟨passed, first, k, rest, rfl, hfirst, hpassed, hnew⟩
      · exact .inl ⟨hnone, by simpa [hid] using hall⟩
      · refine .inr ⟨(id, depth) :: passed, first, k, rest, rfl, hfirst, ?_, hnew⟩
        simpa [hid] using hpassed
    · exact .inr ⟨[], id, depth, queue, rfl, by simp [hid], by simp, hid⟩

/-- How loading in breadth goes, load by load: what is met is loaded before what it refers to
is queued. -/
inductive Deepens (budget : Option Nat) :
    Nat → List DeclId → List (DeclId × Nat) → Atlas → Except Fault Nat → Atlas → Prop
  | done {fuel : Nat} {visited : List DeclId} {queue : List (DeclId × Nat)} {a : Atlas}
      (hqueue : ∀ entry ∈ queue, entry.1 ∈ visited) :
      Deepens budget fuel visited queue a (.ok visited.length) a
  | dry {visited : List DeclId} {passed rest : List (DeclId × Nat)} {id : DeclId} {depth : Nat}
      {a : Atlas} :
      Deepens budget 0 visited (passed ++ (id, depth) :: rest) a (.error .endless) a
  | fail {fuel : Nat} {visited : List DeclId} {passed rest : List (DeclId × Nat)} {id : DeclId}
      {depth : Nat} {a c : Atlas} {fault : Fault} (hload : (load id).exec a = (.error fault, c)) :
      Deepens budget (fuel + 1) visited (passed ++ (id, depth) :: rest) a (.error fault) c
  | visit {fuel : Nat} {visited : List DeclId} {passed rest : List (DeclId × Nat)} {id : DeclId}
      {depth : Nat} {a b c : Atlas} {r : Except Fault Nat}
      (hpassed : ∀ entry ∈ passed, entry.1 ∈ visited) (hid : id ∉ visited)
      (hload : (load id).exec a = (.ok (), c))
      (h : Deepens budget fuel (id :: visited)
        (rest ++ onward c.graph.neighbours budget (id :: visited) id depth) c r b) :
      Deepens budget (fuel + 1) visited (passed ++ (id, depth) :: rest) a r b

lemma deepens (budget : Option Nat) (fuel : Nat) (visited : List DeclId) (queue : List (DeclId × Nat))
    (a : Atlas) : Deepens budget fuel visited queue a ((deepLoadWith budget fuel visited queue).exec a).1
      ((deepLoadWith budget fuel visited queue).exec a).2 := by
  induction fuel generalizing visited queue a with
  | zero =>
    rw [deepLoadWith]
    rcases queue_cases visited queue with ⟨hnone, hall⟩ | ⟨passed, id, depth, rest, rfl, hfirst, -, -⟩
    · rw [hnone]
      exact .done hall
    · rw [hfirst]
      exact .dry
  | succ fuel ih =>
    rw [deepLoadWith]
    rcases queue_cases visited queue with
      ⟨hnone, hall⟩ | ⟨passed, id, depth, rest, rfl, hfirst, hpassed, hid⟩
    · rw [hnone]
      exact .done hall
    · rw [hfirst]
      dsimp only
      rw [exec_bind]
      cases hload : (load id).exec a with
      | mk r c =>
        cases r with
        | error fault => exact .fail hload
        | ok _ => exact .visit hpassed hid hload (ih _ _ c)

/-- A loaded declaration refers to the same ones ever after. -/
lemma neighbours_of_lasts (h : c.Lasts b) (hid : c.graph.isLoaded id = true) :
    b.graph.neighbours id = c.graph.neighbours id := by
  obtain ⟨d, hd, hloaded⟩ := Graph.isLoaded_iff.mp hid
  obtain ⟨e, he, hbecomes, -⟩ := h id d hd
  simp [Graph.neighbours, hd, he, (hbecomes.loaded hloaded).2]

/-- An idle atlas in which all that was met is loaded and all that is queued is registered. -/
structure Ready (visited : List DeclId) (queue : List (DeclId × Nat)) (a : Atlas) : Prop where
  idle : a.Idle
  met : ∀ id ∈ visited, a.graph.isLoaded id = true
  queued : ∀ entry ∈ queue, entry.1 < a.graph.size

lemma Ready.visit {passed rest : List (DeclId × Nat)} {depth : Nat}
    (h : Ready visited (passed ++ (id, depth) :: rest) a) (hload : (load id).exec a = (.ok (), c)) :
    Ready (id :: visited) (rest ++ onward c.graph.neighbours budget (id :: visited) id depth) c := by
  have hid : id < a.graph.size := h.queued (id, depth) (by simp)
  obtain ⟨hsize, hloaded, -⟩ := marks_of_load h.idle hid hload
  have hc : c.Idle := by
    have hkeeps := load_keeps_idle id a h.idle
    rwa [hload] at hkeeps
  refine ⟨hc, ?_, ?_⟩
  · intro other hother
    rcases List.mem_cons.mp hother with rfl | hold
    · exact hloaded
    · exact (lasts_of_load hload).isLoaded (h.met other hold)
  · intro entry hentry
    rcases List.mem_append.mp hentry with hrest | hnew
    · exact Nat.lt_of_lt_of_le (h.queued entry (by simp [hrest])) hsize
    · obtain ⟨-, -, hmem, -⟩ := Search.mem_onward.mp hnew
      obtain ⟨d, hd, -⟩ := Graph.isLoaded_iff.mp hloaded
      simp only [Graph.neighbours, hd, Option.map_some, Option.getD_some] at hmem
      exact hc.linked id d hd entry.1 hmem

namespace Deepens

variable {r : Except Fault Nat} {keys : Finset Key} {m : Nat}

lemma lasts (h : Deepens budget fuel visited queue a r b) : a.Lasts b := by
  induction h with
  | done => exact .refl _
  | dry => exact .refl _
  | fail hload => exact lasts_of_load hload
  | visit _ _ hload _ ih => exact (lasts_of_load hload).trans ih

/-- Loading in breadth is a search in the graph that is left behind. -/
lemma searches (h : Deepens budget fuel visited queue a r b) (ha : Ready visited queue a)
    (hr : r = .ok n) :
    ∃ found, Search.Run b.graph.neighbours budget visited queue found ∧ found.length = n ∧
      (∀ id ∈ found, b.graph.isLoaded id = true) ∧
      ∀ id, b.graph.isLoaded id = true → id ∈ found ∨ a.graph.isLoaded id = true := by
  induction h with
  | done hqueue =>
    cases hr
    exact ⟨_, .done hqueue, rfl, ha.met, fun _ hloaded => .inr hloaded⟩
  | dry => cases hr
  | fail => cases hr
  | @visit _ visited passed rest id depth a b c r hpassed hid hload h ih =>
    obtain ⟨found, hfound, hlength, hall, hnew⟩ := ih (ha.visit hload) hr
    have hregistered : id < a.graph.size := ha.queued (id, depth) (by simp)
    obtain ⟨-, hloaded, hothers⟩ := marks_of_load ha.idle hregistered hload
    have hsame : onward c.graph.neighbours budget (id :: visited) id depth =
        onward b.graph.neighbours budget (id :: visited) id depth := by
      unfold onward
      rw [neighbours_of_lasts h.lasts hloaded]
    rw [hsame] at hfound
    refine ⟨found, .visit hpassed hid hfound, hlength, hall, ?_⟩
    intro other hother
    rcases hnew other hother with hmem | hother
    · exact .inl hmem
    · rcases hothers other hother with rfl | hold
      · exact .inl (hfound.subset List.mem_cons_self)
      · exact .inr hold

/-- All that was met is marked, and no more declarations than there are keys can be. So fuel
for one more is never used up. -/
lemma ne_endless (h : Deepens budget fuel visited queue a r b) (ha : Ready visited queue a)
    (hacyclic : a.Acyclic) (hroom : a.Room keys m) (hnodup : visited.Nodup)
    (hfuel : keys.card < fuel + visited.length) : r ≠ .error .endless := by
  induction h with
  | done => simp
  | @dry visited _ _ _ _ a =>
    have hsub : visited.toFinset ⊆ a.graph.marked := by
      intro id hid
      rw [Graph.mem_marked]
      exact ha.met id (List.mem_toFinset.mp hid)
    have hcard := Finset.card_le_card hsub
    rw [List.toFinset_card_of_nodup hnodup] at hcard
    have hkeys := hroom.marked_card_le
    omega
  | @fail _ _ _ _ id _ a c fault hload =>
    have hends := (acyclic_of_load ha.idle hacyclic id).1
    rw [hload] at hends
    simpa using hends
  | @visit _ visited _ _ id _ a _ c _ hpassed hid hload h ih =>
    have hkept := (acyclic_of_load ha.idle hacyclic id).2
    have hroom' : ((load id).exec a).2.Room keys m :=
      load_keeps (fun fuel => loadWith_keeps_room fuel id) a hroom
    rw [hload] at hkept hroom'
    apply ih (ha.visit hload) (hkept rfl) hroom' (List.nodup_cons.mpr ⟨hid, hnodup⟩)
    rw [List.length_cons]
    omega

end Deepens

end Work

lemma Work.register_keeps_idle {d : Declaration} (hd : d.Fresh) : Work.Keeps Atlas.Idle (Work.register d) := by
  intro a ha
  refine ⟨ha.policy, ha.indexed.add d, ha.settled.add hd, ?_⟩
  intro id e he target htarget
  rcases Graph.get?_add_eq_some he with hold | ⟨-, rfl, -, -⟩
  · exact Nat.lt_of_lt_of_le (ha.linked id e hold target htarget) (Graph.size_le_add a.graph d)
  · rw [hd.empty] at htarget
    cases htarget

lemma Work.setData_keeps_idle (id : DeclId) (value : Datum) :
    Work.Keeps Atlas.Idle (Work.setData id value) := by
  apply Work.setData_keeps
  intro a d data ha hd _
  refine ⟨ha.policy, ha.indexed.modify id fun _ => rfl, ha.settled.modify (fun _ _ => rfl) fun e he => ha.settled.empty (d := e) he, ?_⟩
  intro other e he target htarget
  rw [Graph.size_modify]
  rw [Graph.get?_modify] at he
  split at he
  · obtain ⟨found, hfound, rfl⟩ := Option.map_eq_some_iff.mp he
    exact ha.linked other found hfound target htarget
  · exact ha.linked other e he target htarget

namespace Atlas

lemma idle_afterAll (settings : Settings) (calls : List Call) (hlazy : settings.loadPolicy = .lazy) :
    (({ settings } : Atlas).afterAll calls).Idle := by
  apply afterAll_induction
  · intro call _
    apply Call.keeps
    · exact fun d hd => Work.register_keeps_idle hd
    · exact fun library a ha => ⟨ha.policy, ha.indexed, ha.settled, ha.linked⟩
    · exact Work.setData_keeps_idle
    · exact Work.load_keeps_idle
  · refine ⟨hlazy, .initial, .initial, ?_⟩
    intro id d hd
    simp [Graph.get?] at hd

/-- Loading a declaration and what it leads to, in an atlas that any calls led to. If it gives
a number, then just so many declarations are within the budget of it by what they refer to in
the end; all of them are loaded, and whatever was not loaded before is one of them. The load
comes to an end where no chain of rows leads back to itself, whatever circles the declarations
form and whatever is registered on the way. -/
theorem deepLoad_meets_near (settings : Settings) (calls : List Call) (a : Atlas) (root : DeclId)
    (hlazy : settings.loadPolicy = .lazy) (ha : a = ({ settings } : Atlas).afterAll calls)
    (hroot : root < a.graph.size) :
    (∀ n b, (Work.deepLoad root).exec a = (.ok n, b) →
      ∃ found : Finset DeclId, found.card = n ∧
        (∀ id, id ∈ found ↔ Search.Near b.graph.neighbours settings.maxLoadDepth root id) ∧
        (∀ id ∈ found, b.graph.isLoaded id = true) ∧
        ∀ id, b.graph.isLoaded id = true → a.graph.isLoaded id = false → id ∈ found) ∧
      (a.Acyclic → ∀ b, (Work.deepLoad root).exec a ≠ (.error .endless, b)) := by
  have hidle : a.Idle := by
    rw [ha]
    exact idle_afterAll settings calls hlazy
  have hsettings : a.settings = settings := by
    rw [ha]
    exact settings_afterAll settings calls
  have hready : Work.Ready [] [(root, 0)] a := ⟨hidle, by simp, by simpa using hroot⟩
  have hrun := Work.deepens a.settings.maxLoadDepth (a.capacity + 1) [] [(root, 0)] a
  have hexec : (Work.deepLoad root).exec a =
      (Work.deepLoadWith a.settings.maxLoadDepth (a.capacity + 1) [] [(root, 0)]).exec a := by
    rw [Work.deepLoad, Work.exec_bind, Work.exec_get]
  constructor
  · intro n b hdone
    rw [← hexec, hdone] at hrun
    obtain ⟨found, hfound, hlength, hloaded, hnew⟩ := hrun.searches hready rfl
    obtain ⟨hnodup, hmem⟩ := hfound.meets (.initial _ _ root fun _ => 0) List.nodup_nil
    refine ⟨found.toFinset, ?_, ?_, ?_, ?_⟩
    · rw [List.toFinset_card_of_nodup hnodup, hlength]
    · intro id
      rw [List.mem_toFinset, hmem, hsettings]
    · intro id hid
      exact hloaded id (List.mem_toFinset.mp hid)
    · intro id hafter hbefore
      rcases hnew id hafter with hid | hold
      · exact List.mem_toFinset.mpr hid
      · rw [hbefore] at hold
        cases hold
  · intro hacyclic b hendless
    obtain ⟨keys, hroom, hcard⟩ := exists_room hidle.indexed
    rw [← hexec, hendless] at hrun
    apply hrun.ne_endless hready hacyclic hroom List.nodup_nil _ rfl
    rw [List.length_nil]
    omega

/-- A module whose second type has its base behind two specifications. -/
def spokes : Library where
  module := ((do
    let hub ← Metadata.Builder.defineType 1 "Spokes" "Hub" none
    let inner ← Metadata.Builder.typeSpecification (.classType (.definition hub))
    let outer ← Metadata.Builder.typeSpecification (.classType inner)
    let _ ← Metadata.Builder.defineType 1 "Spokes" "Spoke" (some outer) : Metadata.Build Unit).run.run
      (Metadata.Builder.ofAssembly "Spokes")).2.module
  location := "spokes.dll"

/-- A type that refers to itself, to the module and to a type that refers further. -/
def wheel : Source.Document := .read "wheel.cs"
  "class Wheel : Spokes.Spoke \x7b Wheel Spare \x7b get; \x7d Rim Edge \x7b get; \x7d \x7d class Rim \x7b Tyre Cover \x7b get; \x7d \x7d class Tyre \x7b \x7d"

def wheelCalls : List Call := [.addLibrary spokes, .addDocument wheel]

def wheelAtlas : Atlas := ({ settings := { maxLoadDepth := some 1 } } : Atlas).afterAll wheelCalls

lemma acyclic_spokes : spokes.module.Acyclic := by
  apply Metadata.Module.acyclic_of_backward
  · decide +kernel
  · decide +kernel

/-- Documents have no rows. -/
lemma addDocument_keeps_acyclic (document : Source.Document) :
    Work.Keeps Acyclic (Work.addDocument document) := by
  apply Work.addDocument_keeps
  intro d _ hsource a ha
  refine ⟨ha.libraries, ?_⟩
  intro id e m row he hprovenance
  rcases Graph.get?_add_eq_some he with hold | ⟨-, rfl, -, -⟩
  · exact ha.modules id e m row hold hprovenance
  · rw [hsource] at hprovenance
    cases hprovenance

lemma acyclic_wheelAtlas : wheelAtlas.Acyclic := by
  have hempty : ({ settings := { maxLoadDepth := some 1 } } : Atlas).Acyclic :=
    ⟨by simp, by simp [Graph.get?]⟩
  suffices hkept : ∀ call ∈ wheelCalls, Work.Keeps Acyclic call.work from
    afterAll_induction hkept hempty
  intro call hcall
  simp only [wheelCalls, List.mem_cons, List.not_mem_nil, or_false] at hcall
  rcases hcall with rfl | rfl
  · intro a ha
    refine ⟨?_, ha.modules⟩
    intro library hlibrary
    rcases List.mem_append.mp hlibrary with hold | hnew
    · exact ha.libraries library hold
    · rw [List.mem_singleton.mp hnew]
      exact acyclic_spokes
  · exact (addDocument_keeps_acyclic wheel).bind fun _ => .pure _

/-- With a budget of one, the type, its base from the module and the type of its property are
met, but not what these refer to. -/
theorem deepLoad_meets_near_wheel :
    wheelAtlas.Acyclic ∧ ∃ b, (Work.deepLoad 0).exec wheelAtlas = (.ok 3, b) ∧ b.graph.size = 5 ∧
      (∃ found : Finset DeclId, found.card = 3 ∧
        (∀ id, id ∈ found ↔ Search.Near b.graph.neighbours (some 1) 0 id) ∧
        (∀ id ∈ found, b.graph.isLoaded id = true) ∧
        ∀ id, b.graph.isLoaded id = true → wheelAtlas.graph.isLoaded id = false → id ∈ found) ∧
      ∀ b, (Work.deepLoad 0).exec wheelAtlas ≠ (.error .endless, b) := by
  obtain ⟨hroot, hresult, hsize⟩ : 0 < wheelAtlas.graph.size ∧
      ((Work.deepLoad 0).exec wheelAtlas).1.toOption = some 3 ∧
      ((Work.deepLoad 0).exec wheelAtlas).2.graph.size = 5 := by
    decide +kernel
  obtain ⟨hmeets, hends⟩ :=
    deepLoad_meets_near { maxLoadDepth := some 1 } wheelCalls wheelAtlas 0 rfl rfl hroot
  have hrun : (Work.deepLoad 0).exec wheelAtlas = (.ok 3, ((Work.deepLoad 0).exec wheelAtlas).2) := by
    generalize (Work.deepLoad 0).exec wheelAtlas = run at hresult ⊢
    obtain ⟨_ | n, b⟩ := run
    · cases hresult
    · obtain rfl := Option.some.inj hresult
      rfl
  exact ⟨acyclic_wheelAtlas, _, hrun, hsize, hmeets 3 _ hrun, hends acyclic_wheelAtlas⟩

end Atlas

end TypeAtlas
