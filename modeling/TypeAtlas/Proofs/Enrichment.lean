import Mathlib.Data.List.Find
import TypeAtlas.Proofs.Indexing

/-!
Atlases that calls have enriched. Definitions of modules come into the graph when a
reference first leads to them. An enriched atlas differs from the atlas at the start by
declarations that one offers; a name has the same answer in both unless something has come
in that disputes it.
-/

namespace TypeAtlas

variable {id : DeclId} {g : Graph} {candidates : List Candidate} {fullName location : String} {d : Declaration}

/-- A declaration that the next call can bring into the graph: nothing registered and no
builtin type answers to a name that a library defines it under. -/
structure Atlas.Offers (a : Atlas) (d : Declaration) : Prop where
  free : a.graph.findQualified d.key = none
  defined : ∃ fullName arity library row key, a.graph.lookup fullName arity none = none ∧
    Builtin.first? arity [fullName] = none ∧
    Library.first? a.libraries arity fullName = some (library, row) ∧
    library.markedKey row = .ok key ∧ a.graph.findQualified key = none ∧
    Declaration.ofDefinition none library row = .ok d

/-- What a name with a number of arguments stands for. -/
inductive Answer where
  | declared (key : Key)
  | builtin (type : Builtin)
  | aliased (target : TypeRef)
  | unresolved
  | malformed (cause : Malformed)

namespace Atlas

/-- The declaration that a definition stands for, registered or not. -/
def definition (a : Atlas) (library : Library) (row : Nat) : Answer :=
  match library.markedKey row with
  | .error cause => .malformed cause
  | .ok key =>
    match a.graph.findQualified key with
    | some _ => .declared key
    | none =>
      match Declaration.ofDefinition none library row with
      | .ok d => .declared d.key
      | .error cause => .malformed cause

/-- What a name stands for as the atlas is. -/
def answer (a : Atlas) (scope : Scope) (name : String) (arity : Nat) : Answer :=
  match a.graph.match? scope.location arity (scope.candidates name) with
  | some (.inl id) => ((a.graph.get? id).map fun d => .declared d.key).getD .unresolved
  | some (.inr target) => .aliased target
  | none =>
    match Builtin.first? arity (Candidate.names (scope.candidates name)) with
    | some type => .builtin type
    | none =>
      match (Candidate.names (scope.candidates name)).findSome?
        (Library.first? a.libraries arity) with
      | some (library, row) => a.definition library row
      | none => .unresolved

end Atlas

/-- A declaration that would be taken for one of some candidates if it were registered: it
answers to a candidate that nothing answers to before, or it stands at the preferred place. -/
def Graph.Contends (g : Graph) (location : String) (arity : Nat) (d : Declaration) :
    List Candidate → Prop
  | [] => False
  | .name fullName :: rest =>
    match g.lookup fullName arity (some location) with
    | some _ => d.key = ⟨fullName, arity, location⟩
    | none => d.fullName = fullName ∧ d.arity = arity ∨ g.Contends location arity d rest
  | .aliased _ :: rest => if arity = 0 then False else g.Contends location arity d rest

namespace Atlas

/-- A declaration that would be taken for a name in place of what the name stands for now. -/
def Disputes (a : Atlas) (scope : Scope) (name : String) (arity : Nat) (d : Declaration) : Prop :=
  a.answer scope name arity ≠ .declared d.key ∧
    (a.graph.Contends scope.location arity d (scope.candidates name) ∨
      a.graph.match? scope.location arity (scope.candidates name) = none ∧
      Builtin.first? arity (Candidate.names (scope.candidates name)) = none ∧
      ∃ library row, (Candidate.names (scope.candidates name)).findSome?
          (Library.first? a.libraries arity) = some (library, row) ∧
        library.markedKey row = .ok d.key)
end Atlas

/-- Whatever is registered in the first graph is just the same in the second. -/
def Graph.Within (g g' : Graph) : Prop := ∀ {id d}, g.get? id = some d → g'.get? id = some d

/-- A declaration has come into the second atlas. -/
def Atlas.Brought (a b : Atlas) (d : Declaration) : Prop :=
  ∃ id, a.graph.size ≤ id ∧ b.graph.get? id = some d

/-- An atlas with some of what another one offers brought into its graph. -/
structure Atlas.Enriched (a b : Atlas) : Prop where
  settings : b.settings = a.settings
  libraries : b.libraries = a.libraries
  indexed : b.graph.Indexed
  within : a.graph.Within b.graph
  size : a.graph.size ≤ b.graph.size
  offered : ∀ {d}, a.Brought b d → a.Offers d

namespace Atlas.Enriched

variable {a b : Atlas} {arity : Nat}

lemma refl (h : a.graph.Indexed) : a.Enriched a where
  settings := rfl
  libraries := rfl
  indexed := h
  within := fun hd => hd
  size := Nat.le_refl _
  offered := by
    rintro d ⟨id, hsize, hd⟩
    exact absurd (Graph.lt_size_of_get? hd) (Nat.not_lt.mpr hsize)

/-- A declaration in an enriched atlas was there before or has come into it. -/
lemma cases (h : a.Enriched b) (hd : b.graph.get? id = some d) : a.graph.get? id = some d ∨ a.Brought b d := by
  by_cases hid : id < a.graph.size
  · obtain ⟨e, he⟩ := Graph.get?_of_lt_size hid
    have hsame := (h.within he).symm.trans hd
    exact .inl (he.trans hsame)
  · exact .inr ⟨id, Nat.le_of_not_lt hid, hd⟩

section

variable (ha : a.graph.Indexed) (h : a.Enriched b) {key : Key}

include ha h

lemma findQualified (hkey : a.graph.findQualified key = some id) : b.graph.findQualified key = some id := by
  obtain ⟨d, hd, hkey⟩ := (ha.byKey key id).mp hkey
  exact (h.indexed.byKey key id).mpr ⟨d, h.within hd, hkey⟩

lemma findQualified_cases (hkey : b.graph.findQualified key = some id) :
    a.graph.findQualified key = some id ∨
      (a.graph.findQualified key = none ∧
        ∃ d, b.graph.get? id = some d ∧ a.Brought b d ∧ d.key = key) := by
  obtain ⟨d, hd, hkey'⟩ := (h.indexed.byKey key id).mp hkey
  rcases h.cases hd with hold | hbrought
  · exact .inl ((ha.byKey key id).mpr ⟨d, hold, hkey'⟩)
  · exact .inr ⟨hkey' ▸ (h.offered hbrought).free, d, hd, hbrought, hkey'⟩

lemma findQualified_eq_none (hkey : b.graph.findQualified key = none) : a.graph.findQualified key = none := by
  cases hold : a.graph.findQualified key with
  | none => rfl
  | some id =>
    rw [h.findQualified ha hold] at hkey
    cases hkey

/-- All declarations of a full name, those that were there first. -/
lemma find (fullName : String) :
    ∃ rest, b.graph.find fullName = a.graph.find fullName ++ rest := by
  obtain ⟨n, hn⟩ := Nat.exists_eq_add_of_le h.size
  have hold : ∀ id ∈ List.range a.graph.size,
      (b.graph.fullNameOf id == fullName) = (a.graph.fullNameOf id == fullName) := by
    intro id hid
    obtain ⟨d, hd⟩ := Graph.get?_of_lt_size (List.mem_range.mp hid)
    rw [Graph.fullNameOf_eq hd, Graph.fullNameOf_eq (h.within hd)]
  refine ⟨((List.range n).map (a.graph.size + ·)).filter (b.graph.fullNameOf · == fullName), ?_⟩
  rw [h.indexed.byFullName, ha.byFullName, Graph.ids, Graph.ids, hn, List.range_add,
    List.filter_append, List.filter_congr hold]

end

lemma hasArity (h : a.Enriched b) (hid : id < a.graph.size) :
    b.graph.hasArity arity id = a.graph.hasArity arity id := by
  obtain ⟨d, hd⟩ := Graph.get?_of_lt_size hid
  simp [Graph.hasArity, hd, h.within hd]

section

variable (ha : a.graph.Indexed) (h : a.Enriched b)

include ha h

/-- What answers to a name goes on answering to it, unless something comes to the preferred
place. -/
lemma lookup (hlookup : a.graph.lookup fullName arity (some location) = some id)
    (hfree : ∀ d, a.Brought b d → d.key ≠ ⟨fullName, arity, location⟩) :
    b.graph.lookup fullName arity (some location) = some id := by
  unfold Graph.lookup at hlookup ⊢
  simp only [Option.bind_some] at hlookup ⊢
  cases hkey : a.graph.findQualified ⟨fullName, arity, location⟩ with
  | some found =>
    rw [hkey] at hlookup
    rw [h.findQualified ha hkey]
    exact hlookup
  | none =>
    have hnone : b.graph.findQualified ⟨fullName, arity, location⟩ = none := by
      cases hfound : b.graph.findQualified ⟨fullName, arity, location⟩ with
      | none => rfl
      | some other =>
        rcases h.findQualified_cases ha hfound with hold | ⟨-, d, -, hbrought, hdkey⟩
        · rw [hkey] at hold
          cases hold
        · exact absurd hdkey (hfree d hbrought)
    rw [hkey] at hlookup
    rw [hnone]
    dsimp only at hlookup ⊢
    obtain ⟨rest, hrest⟩ := h.find ha fullName
    have hsame : (a.graph.find fullName).find? (b.graph.hasArity arity) =
        (a.graph.find fullName).find? (a.graph.hasArity arity) := by
      refine List.find?_congr fun other hother => ?_
      rw [ha.byFullName, List.mem_filter, Graph.ids, List.mem_range] at hother
      exact h.hasArity hother.1
    rw [hrest, List.find?_append, hsame, hlookup]
    rfl

/-- Where nothing answers to a name, only what has come in under the name can. -/
lemma lookup_cases (hlookup : a.graph.lookup fullName arity (some location) = none) :
    b.graph.lookup fullName arity (some location) = none ∨
      ∃ id d, b.graph.lookup fullName arity (some location) = some id ∧ b.graph.get? id = some d ∧
        a.Brought b d ∧ d.fullName = fullName ∧ d.arity = arity := by
  cases hfound : b.graph.lookup fullName arity (some location) with
  | none => exact .inl rfl
  | some id =>
    obtain ⟨d, hd, rfl, rfl⟩ := h.indexed.get?_lookup hfound
    rcases h.cases hd with hold | hbrought
    · exact absurd hlookup (ha.lookup_ne_none hold (some location))
    · exact .inr ⟨id, d, rfl, hd, hbrought, rfl, rfl⟩

lemma lookup_eq_none {location : Option String}
    (hlookup : b.graph.lookup fullName arity location = none) : a.graph.lookup fullName arity none = none := by
  cases hfound : a.graph.lookup fullName arity none with
  | none => rfl
  | some id =>
    obtain ⟨d, hd, rfl, rfl⟩ := ha.get?_lookup hfound
    exact absurd hlookup (h.indexed.lookup_ne_none (h.within hd) location)

/-- The first candidate stays the first where nothing that has come in contends with it. -/
lemma match?_of_some {first : DeclId ⊕ TypeRef}
    (hmatch : a.graph.match? location arity candidates = some first)
    (hfree : ∀ d, a.Brought b d → ¬ a.graph.Contends location arity d candidates) :
    b.graph.match? location arity candidates = some first := by
  fun_induction a.graph.match? location arity candidates with
  | case1 => cases hmatch
  | case2 fullName rest id hlookup =>
    simp only [Graph.Contends, hlookup] at hfree
    rw [Graph.match?, h.lookup ha hlookup hfree]
    exact hmatch
  | case3 fullName rest hlookup ih =>
    simp only [Graph.Contends, hlookup] at hfree
    rcases h.lookup_cases ha hlookup with hnone | ⟨_, d, -, -, hbrought, hname⟩
    · rw [Graph.match?, hnone]
      exact ih hmatch fun d hd hcontends => hfree d hd (.inr hcontends)
    · exact absurd (.inl hname) (hfree d hbrought)
  | case4 target rest harity =>
    rw [Graph.match?, if_pos harity]
    exact hmatch
  | case5 target rest harity ih =>
    simp only [Graph.Contends, if_neg harity] at hfree
    rw [Graph.match?, if_neg harity]
    exact ih hmatch hfree

/-- Where no candidate was registered, only what contends for one can be now. -/
lemma match?_of_none (hmatch : a.graph.match? location arity candidates = none) :
    b.graph.match? location arity candidates = none ∨
      ∃ id d, b.graph.match? location arity candidates = some (.inl id) ∧
        b.graph.get? id = some d ∧ a.Brought b d ∧ a.graph.Contends location arity d candidates := by
  fun_induction a.graph.match? location arity candidates with
  | case1 => exact .inl rfl
  | case2 => cases hmatch
  | case3 fullName rest hlookup ih =>
    simp only [Graph.match?, Graph.Contends, hlookup]
    rcases h.lookup_cases ha hlookup with hnone | ⟨id, d, hid, hd, hbrought, hname⟩
    · rw [hnone]
      rcases ih hmatch with hrest | ⟨id, d, hid, hd, hbrought, hcontends⟩
      · exact .inl hrest
      · exact .inr ⟨id, d, hid, hd, hbrought, .inr hcontends⟩
    · rw [hid]
      exact .inr ⟨id, d, rfl, hd, hbrought, .inl hname⟩
  | case4 => cases hmatch
  | case5 target rest harity ih =>
    simp only [Graph.match?, Graph.Contends, if_neg harity]
    exact ih hmatch

end

end Atlas.Enriched

lemma Graph.name_of_match? {arity : Nat} (h : g.match? location arity candidates = some (.inl id)) :
    ∃ fullName ∈ Candidate.names candidates, g.lookup fullName arity (some location) = some id := by
  fun_induction g.match? location arity candidates with
  | case1 => cases h
  | case2 fullName rest found hlookup =>
    cases h
    exact ⟨fullName, by simp [Candidate.names], hlookup⟩
  | case3 fullName rest hlookup ih =>
    obtain ⟨other, hmem, hother⟩ := ih h
    exact ⟨other, by simpa [Candidate.names] using .inr (by simpa [Candidate.names] using hmem), hother⟩
  | case4 => cases h
  | case5 target rest harity ih =>
    obtain ⟨other, hmem, hother⟩ := ih h
    exact ⟨other, by simpa [Candidate.names] using hmem, hother⟩

/-- The first candidate, if it is a declaration, is registered. -/
lemma Graph.Indexed.get?_match? (h : g.Indexed) {arity : Nat}
    (hmatch : g.match? location arity candidates = some (.inl id)) : ∃ d, g.get? id = some d := by
  obtain ⟨fullName, -, hlookup⟩ := Graph.name_of_match? hmatch
  obtain ⟨d, hd, -, -⟩ := h.get?_lookup hlookup
  exact ⟨d, hd⟩

lemma Graph.lookup_of_match?_eq_none {arity : Nat} (hmatch : g.match? location arity candidates = none)
    (hname : fullName ∈ Candidate.names candidates) : g.lookup fullName arity (some location) = none := by
  fun_induction g.match? location arity candidates with
  | case1 => cases hname
  | case2 => cases hmatch
  | case3 other rest hlookup ih =>
    simp only [Candidate.names, List.filterMap_cons, List.mem_cons] at hname
    rcases hname with rfl | hname
    · exact hlookup
    · exact ih hmatch hname
  | case4 => cases hmatch
  | case5 target rest harity ih => exact ih hmatch hname

namespace Work

variable {a b : Atlas} {library : Library} {row : Nat}

/-- Registering what is offered enriches further. -/
lemma enriched_add (h : a.Enriched b) (hoffers : a.Offers d) : a.Enriched { b with graph := (b.graph.add d).2 } where
  settings := h.settings
  libraries := h.libraries
  indexed := h.indexed.add d
  within := by
    intro id e he
    have hold := h.within he
    exact (Graph.get?_add d (Graph.lt_size_of_get? hold)).trans hold
  size := Nat.le_trans h.size (Graph.size_le_add b.graph d)
  offered := by
    rintro e ⟨id, hid, he⟩
    rcases Graph.get?_add_eq_some he with hold | ⟨-, rfl, -, -⟩
    · exact h.offered ⟨id, hid, hold⟩
    · exact hoffers

/-- Where a name has no answer but a definition, the definition is what its answer in the
atlas at the start says, if nothing offered was registered under its marked key. -/
lemma exec_define_enriched (ha : a.graph.Indexed) (h : a.Enriched b) {arity : Nat} {location : Option String}
    (hlookup : b.graph.lookup fullName arity location = none) (hbuiltin : Builtin.first? arity [fullName] = none)
    (hfirst : Library.first? a.libraries arity fullName = some (library, row)) :
    ∃ r c, (define library row).exec b = (r, c) ∧ a.Enriched c ∧ b.graph.Within c.graph ∧
      ((∀ d, a.Brought b d → library.markedKey row = .ok d.key → a.definition library row = .declared d.key) →
        ((∃ id d, r = .ok id ∧ c.graph.get? id = some d ∧
            a.definition library row = .declared d.key) ∨
          ∃ cause, r = .error (.malformed cause) ∧ a.definition library row = .malformed cause)) := by
  rw [exec_define]
  unfold Atlas.definition
  cases hkey : library.markedKey row with
  | error cause => exact ⟨_, b, rfl, h, fun hd => hd, fun _ => .inr ⟨cause, rfl, rfl⟩⟩
  | ok key =>
    dsimp only
    cases hfound : b.graph.findQualified key with
    | some id =>
      refine ⟨_, b, rfl, h, fun hd => hd, fun hmarked => .inl ?_⟩
      obtain ⟨d, hd, rfl⟩ := (h.indexed.byKey key id).mp hfound
      refine ⟨id, d, rfl, hd, ?_⟩
      rcases h.findQualified_cases ha hfound with hold | ⟨-, e, he, hbrought, hekey⟩
      · rw [hold]
      · have hanswer := hmarked e hbrought (by rw [hekey])
        rw [hekey] at hanswer
        exact hanswer
    | none =>
      have hfree := h.findQualified_eq_none ha hfound
      rw [hfree]
      dsimp only
      cases hd : Declaration.ofDefinition none library row with
      | error cause => exact ⟨_, b, rfl, h, fun hd => hd, fun _ => .inr ⟨cause, rfl, rfl⟩⟩
      | ok d =>
        dsimp only
        cases hnew : b.graph.findQualified d.key with
        | some id =>
          rw [Graph.add_of_taken hnew]
          obtain ⟨e, he, hekey⟩ := (h.indexed.byKey d.key id).mp hnew
          refine ⟨_, b, rfl, h, fun hd => hd, fun _ => .inl ⟨id, e, rfl, he, ?_⟩⟩
          rw [hekey]
        | none =>
          have hoffers : a.Offers d :=
            ⟨h.findQualified_eq_none ha hnew, fullName, arity, library, row, key,
              h.lookup_eq_none ha hlookup, hbuiltin, hfirst, hkey, hfree, hd⟩
          refine ⟨_, _, rfl, enriched_add h hoffers, fun he => ?_, fun _ => .inl ?_⟩
          · exact (Graph.get?_add d (Graph.lt_size_of_get? he)).trans he
          · rw [Graph.add_of_free hnew]
            refine ⟨_, d, rfl, ?_, rfl⟩
            have hget := Graph.get?_add_of_free hnew
            rw [Graph.add_of_free hnew] at hget
            exact hget

/-- What finding a target does. -/
lemma exec_target? (inAlias : TypeRef → Work Use) (scope : Scope) (name : String) (arity : Nat)
    (b : Atlas) :
    (target? inAlias scope name arity).exec b =
      match b.graph.match? scope.location arity (scope.candidates name) with
      | some (.inl id) => (.ok (some (.declaration id)), b)
      | some (.inr target) => (do return some (.aliased (← inAlias target)) : Work _).exec b
      | none =>
        match Builtin.first? arity (Candidate.names (scope.candidates name)) with
        | some type => (.ok (some (.builtin type)), b)
        | none =>
          match (Candidate.names (scope.candidates name)).findSome?
            (Library.first? b.libraries arity) with
          | some (library, row) =>
            match (define library row).exec b with
            | (.ok id, c) => (.ok (some (.declaration id)), c)
            | (.error fault, c) => (.error fault, c)
          | none => (.ok none, b) := by
  unfold target?
  rw [exec_bind, exec_graph]
  dsimp only
  cases b.graph.match? scope.location arity (scope.candidates name) with
  | some found => cases found <;> rfl
  | none =>
    dsimp only
    cases Builtin.first? arity (Candidate.names (scope.candidates name)) with
    | some type => rfl
    | none =>
      dsimp only [defineFirst]
      simp only [exec_bind, exec_get]
      cases (Candidate.names (scope.candidates name)).findSome?
        (Library.first? b.libraries arity) with
      | none => rfl
      | some found =>
        obtain ⟨library, row⟩ := found
        dsimp only
        rw [exec_bind]
        cases (define library row).exec b with
        | mk r c => cases r <;> rfl

/-- A library that supplies one of some names does so under one that nothing else answers. -/
lemma supplied_name {names : List String} {libraries : List Library} {arity : Nat}
    (hbuiltin : Builtin.first? arity names = none)
    (hfirst : names.findSome? (Library.first? libraries arity) = some (library, row)) :
    ∃ fullName ∈ names, Builtin.first? arity [fullName] = none ∧
      Library.first? libraries arity fullName = some (library, row) := by
  obtain ⟨fullName, hname, hdefined⟩ := List.exists_of_findSome?_eq_some hfirst
  refine ⟨fullName, hname, ?_, hdefined⟩
  unfold Builtin.first? at hbuiltin ⊢
  split
  · rename_i harity
    rw [if_pos harity] at hbuiltin
    have hnone := List.findSome?_eq_none_iff.mp hbuiltin fullName hname
    simp [hnone]
  · rfl

/-- Finding the target of any name enriches an atlas further at most. -/
lemma target?_keeps_enriched (ha : a.graph.Indexed) {inAlias : TypeRef → Work Use}
    (halias : ∀ target, Keeps a.Enriched (inAlias target)) (scope : Scope) (name : String)
    (arity : Nat) : Keeps a.Enriched (target? inAlias scope name arity) := by
  intro b h
  rw [exec_target?]
  cases hmatch : b.graph.match? scope.location arity (scope.candidates name) with
  | some found =>
    cases found with
    | inl id => exact h
    | inr target => exact (halias target).bind (fun _ => Keeps.pure _) b h
  | none =>
    dsimp only
    cases hbuiltin : Builtin.first? arity (Candidate.names (scope.candidates name)) with
    | some type => exact h
    | none =>
      dsimp only
      rw [h.libraries]
      cases hfirst : (Candidate.names (scope.candidates name)).findSome?
        (Library.first? a.libraries arity) with
      | none => exact h
      | some found =>
        obtain ⟨library, row⟩ := found
        obtain ⟨fullName, hname, hnone, hdefined⟩ := supplied_name hbuiltin hfirst
        have hlookup := Graph.lookup_of_match?_eq_none hmatch hname
        obtain ⟨r, c, hrun, hc, -, -⟩ := exec_define_enriched ha h hlookup hnone hdefined
        dsimp only
        rw [hrun]
        cases r <;> exact hc

/-- What finding a target does when the name has an answer. -/
def Answered (a b : Atlas) (inAlias : TypeRef → Work Use) (w : Work (Option Target)) :
    Answer → Prop
  | .declared key => ∃ id c d, w.exec b = (.ok (some (.declaration id)), c) ∧ a.Enriched c ∧
      b.graph.Within c.graph ∧ c.graph.get? id = some d ∧ d.key = key
  | .builtin type => w.exec b = (.ok (some (.builtin type)), b)
  | .aliased target => w.exec b = (do return some (.aliased (← inAlias target)) : Work _).exec b
  | .unresolved => w.exec b = (.ok none, b)
  | .malformed cause => ∃ c, w.exec b = (.error (.malformed cause), c) ∧ a.Enriched c ∧
      b.graph.Within c.graph

section

variable (ha : a.graph.Indexed) (h : a.Enriched b) (inAlias : TypeRef → Work Use) {scope : Scope}
  {name : String} {arity : Nat} (hundisputed : ∀ d, a.Brought b d → ¬ a.Disputes scope name arity d)

include ha h inAlias hundisputed

/-- A name that nothing in the graph answers to has its answer from the builtin types and
the libraries. -/
lemma target?_answered_of_none
    (hmatch : a.graph.match? scope.location arity (scope.candidates name) = none)
    (hmatch' : b.graph.match? scope.location arity (scope.candidates name) = none) :
    Answered a b inAlias (target? inAlias scope name arity) (a.answer scope name arity) := by
  have hrun := exec_target? inAlias scope name arity b
  simp only [hmatch', h.libraries] at hrun
  cases hbuiltin : Builtin.first? arity (Candidate.names (scope.candidates name)) with
  | some type =>
    simp only [Atlas.answer, hmatch, hbuiltin] at hrun ⊢
    exact hrun
  | none =>
    cases hfirst : (Candidate.names (scope.candidates name)).findSome?
      (Library.first? a.libraries arity) with
    | none =>
      simp only [Atlas.answer, hmatch, hbuiltin, hfirst] at hrun ⊢
      exact hrun
    | some found =>
      obtain ⟨library, row⟩ := found
      have hdefinition : a.answer scope name arity = a.definition library row := by
        simp only [Atlas.answer, hmatch, hbuiltin, hfirst]
      have hmarked : ∀ d, a.Brought b d → library.markedKey row = .ok d.key →
          a.definition library row = .declared d.key := by
        intro d hbrought hkey
        by_contra hne
        rw [← hdefinition] at hne
        exact hundisputed d hbrought ⟨hne, .inr ⟨hmatch, hbuiltin, library, row, hfirst, hkey⟩⟩
      obtain ⟨fullName, hname, hnone, hdefined⟩ := supplied_name hbuiltin hfirst
      have hlookup := Graph.lookup_of_match?_eq_none hmatch' hname
      obtain ⟨r, c, hexec, hc, hwithin, hanswer⟩ := exec_define_enriched ha h hlookup hnone hdefined
      simp only [hbuiltin, hfirst, hexec] at hrun
      rw [hdefinition]
      rcases hanswer hmarked with ⟨id, d, rfl, hd, heq⟩ | ⟨cause, rfl, heq⟩
      · rw [heq]
        exact ⟨id, c, d, hrun, hc, hwithin, hd, rfl⟩
      · rw [heq]
        exact ⟨c, hrun, hc, hwithin⟩

/-- A name has its answer in every enriched atlas that nothing disputing it has come into. -/
lemma target?_answered :
    Answered a b inAlias (target? inAlias scope name arity) (a.answer scope name arity) := by
  have hanswer : ∀ d, a.Brought b d →
      a.graph.Contends scope.location arity d (scope.candidates name) →
      a.answer scope name arity = .declared d.key := by
    intro d hbrought hcontends
    by_contra hne
    exact hundisputed d hbrought ⟨hne, .inl hcontends⟩
  cases hmatch : a.graph.match? scope.location arity (scope.candidates name) with
  | some first =>
    cases first with
    | inl id =>
      obtain ⟨e, he⟩ := ha.get?_match? hmatch
      have hdeclared : a.answer scope name arity = .declared e.key := by
        simp [Atlas.answer, hmatch, he]
      -- Nothing offered contends, since its key would have to be the registered one.
      have hfree : ∀ d, a.Brought b d →
          ¬ a.graph.Contends scope.location arity d (scope.candidates name) := by
        intro d hbrought hcontends
        have hkey := hdeclared.symm.trans (hanswer d hbrought hcontends)
        have htaken := (ha.byKey e.key id).mpr ⟨e, he, rfl⟩
        rw [Answer.declared.inj hkey, (h.offered hbrought).free] at htaken
        cases htaken
      rw [hdeclared]
      refine ⟨id, b, e, ?_, h, fun hd => hd, h.within he, rfl⟩
      rw [exec_target?, h.match?_of_some ha hmatch hfree]
    | inr target =>
      have haliased : a.answer scope name arity = .aliased target := by
        simp [Atlas.answer, hmatch]
      have hfree : ∀ d, a.Brought b d →
          ¬ a.graph.Contends scope.location arity d (scope.candidates name) := by
        intro d hbrought hcontends
        cases haliased.symm.trans (hanswer d hbrought hcontends)
      rw [haliased]
      change (target? inAlias scope name arity).exec b = _
      rw [exec_target?, h.match?_of_some ha hmatch hfree]
  | none =>
    rcases h.match?_of_none ha hmatch with hnone | ⟨id, d, hid, hd, hbrought, hcontends⟩
    · exact target?_answered_of_none ha h inAlias hundisputed hmatch hnone
    · rw [hanswer d hbrought hcontends]
      refine ⟨id, b, d, ?_, h, fun hd => hd, hd, rfl⟩
      rw [exec_target?, hid]

end

end Work

end TypeAtlas
