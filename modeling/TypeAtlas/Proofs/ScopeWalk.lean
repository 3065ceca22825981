import TypeAtlas.Proofs.BuildCalls
import TypeAtlas.Proofs.Chains

/-!
The walk from a reference to its assembly. The type of a reference may be nested in that of
another one, so the walk goes from scope to scope and keeps no record of the rows it passed.
Main statement: it ends exactly where no row on its way leads back to itself, and then after
no more rows than the table has, with the assembly of the module, the name of an assembly
that it refers to, or a malformed row.
-/

namespace TypeAtlas.Metadata.Module

variable {m : Module}

/-- The walk from a scope ends: it passes so many references and gives this result. -/
inductive ScopeWalk (m : Module) : Nat → RefScope → Except Malformed String → Prop
  | own : ScopeWalk m 0 .ownModule (.ok m.assembly)
  | assembly {row : Nat} {found : AssemblyRefRow} :
      m.assemblyRef row = .ok found → ScopeWalk m 0 (.assembly row) (m.strings.get found.name)
  | absentAssembly {row : Nat} {cause : Malformed} :
      m.assemblyRef row = .error cause → ScopeWalk m 0 (.assembly row) (.error cause)
  | outer {row steps : Nat} {found : TypeRefRow} {result : Except Malformed String} :
      m.typeRef row = .ok found → ScopeWalk m steps found.scope result →
        ScopeWalk m (steps + 1) (.outer row) result
  | absentOuter {row : Nat} {cause : Malformed} :
      m.typeRef row = .error cause → ScopeWalk m 0 (.outer row) (.error cause)

namespace ScopeWalk

variable {steps other fuel row next : Nat} {scope : RefScope} {result found : Except Malformed String}

lemma unique (h : m.ScopeWalk steps scope result) (h' : m.ScopeWalk other scope found) :
    steps = other ∧ result = found := by
  induction h generalizing other with
  | own =>
    cases h'
    exact ⟨rfl, rfl⟩
  | assembly hrow =>
    cases h' with
    | assembly hrow' =>
      rw [hrow] at hrow'
      cases hrow'
      exact ⟨rfl, rfl⟩
    | absentAssembly hrow' =>
      rw [hrow] at hrow'
      cases hrow'
  | absentAssembly hrow =>
    cases h' with
    | assembly hrow' =>
      rw [hrow] at hrow'
      cases hrow'
    | absentAssembly hrow' =>
      rw [hrow] at hrow'
      cases hrow'
      exact ⟨rfl, rfl⟩
  | outer hrow _ ih =>
    cases h' with
    | outer hrow' hwalk =>
      rw [hrow] at hrow'
      cases hrow'
      obtain ⟨rfl, rfl⟩ := ih hwalk
      exact ⟨rfl, rfl⟩
    | absentOuter hrow' =>
      rw [hrow] at hrow'
      cases hrow'
  | absentOuter hrow =>
    cases h' with
    | outer hrow' _ =>
      rw [hrow] at hrow'
      cases hrow'
    | absentOuter hrow' =>
      rw [hrow] at hrow'
      cases hrow'
      exact ⟨rfl, rfl⟩

/-- Fuel for the references on the way is enough. -/
lemma scopeAssembly_eq (h : m.ScopeWalk steps scope result) (hfuel : steps ≤ fuel) :
    m.scopeAssembly fuel scope = result.mapError .malformed := by
  induction h generalizing fuel with
  | own => simp [scopeAssembly, Except.mapError]
  | assembly hrow => simp [scopeAssembly, hrow]
  | absentAssembly hrow => simp [scopeAssembly, hrow, Except.mapError]
  | outer hrow _ ih =>
    obtain ⟨fuel, rfl⟩ : ∃ less, fuel = less + 1 := ⟨fuel - 1, by omega⟩
    simp only [scopeAssembly, hrow]
    exact ih (by omega)
  | absentOuter hrow => simp [scopeAssembly, hrow, Except.mapError]

/-- The assembly that is found is the own one or one that the module refers to. -/
lemma ok_cases {name : String} (h : m.ScopeWalk steps scope result) (hresult : result = .ok name) :
    name = m.assembly ∨
      ∃ row found, m.assemblyRef row = .ok found ∧ m.strings.get found.name = .ok name := by
  induction h with
  | own => exact .inl (Except.ok.inj hresult).symm
  | assembly hrow => exact .inr ⟨_, _, hrow, hresult⟩
  | absentAssembly | absentOuter => cases hresult
  | outer _ _ ih => exact ih hresult

/-- All references on the way are different rows: each is so many references from the end. -/
lemma exists_passed (h : m.ScopeWalk steps scope result) :
    ∃ passed ⊆ Finset.Icc 1 m.typeRefs.size, passed.card = steps ∧
      ∀ row ∈ passed, ∃ left ≤ steps, m.ScopeWalk left (.outer row) result := by
  induction h with
  | own | assembly | absentAssembly | absentOuter => exact ⟨∅, by simp, rfl, by simp⟩
  | @outer row steps found result hrow hwalk ih =>
    obtain ⟨passed, hsub, hcard, hleft⟩ := ih
    have hfresh : row ∉ passed := by
      intro hmem
      obtain ⟨left, hle, hagain⟩ := hleft row hmem
      obtain ⟨heq, -⟩ := hagain.unique (.outer hrow hwalk)
      omega
    refine ⟨insert row passed, Finset.insert_subset (mem_Icc_of_row hrow) hsub, ?_, ?_⟩
    · rw [Finset.card_insert_of_notMem hfresh, hcard]
    · intro other hother
      rcases Finset.mem_insert.mp hother with rfl | hother
      · exact ⟨steps + 1, Nat.le_refl _, .outer hrow hwalk⟩
      · obtain ⟨left, hle, hagain⟩ := hleft other hother
        exact ⟨left, by omega, hagain⟩

lemma steps_le (h : m.ScopeWalk steps scope result) : steps ≤ m.typeRefs.size := by
  obtain ⟨passed, hsub, hcard, -⟩ := h.exists_passed
  have hle := Finset.card_le_card hsub
  rw [Nat.card_Icc] at hle
  omega

lemma referenceAssembly_eq (h : m.ScopeWalk steps (.outer row) result) :
    m.referenceAssembly row = result.mapError .malformed := by
  have hsteps := h.steps_le
  cases h with
  | outer hrow hwalk =>
    simp only [referenceAssembly, hrow]
    exact hwalk.scopeAssembly_eq (by omega)
  | absentOuter hrow => simp [referenceAssembly, hrow, Except.mapError]

end ScopeWalk

/-! Which walks end. -/

/-- The walk from a row ends if those from the rows it leads to end. -/
lemma exists_scopeWalk_of_leads {row : Nat}
    (h : ∀ next, m.ScopeLeads row next → ∃ steps result, m.ScopeWalk steps (.outer next) result) :
    ∃ steps result, m.ScopeWalk steps (.outer row) result := by
  cases hrow : m.typeRef row with
  | error cause => exact ⟨_, _, .absentOuter hrow⟩
  | ok found =>
    have hscope : ∃ steps result, m.ScopeWalk steps found.scope result := by
      cases hscope : found.scope with
      | ownModule => exact ⟨_, _, .own⟩
      | assembly other =>
        cases hother : m.assemblyRef other with
        | ok => exact ⟨_, _, .assembly hother⟩
        | error => exact ⟨_, _, .absentAssembly hother⟩
      | outer next => exact h next (scopeLeads_of_outer hrow hscope)
    obtain ⟨steps, result, hwalk⟩ := hscope
    exact ⟨_, _, .outer hrow hwalk⟩

/-- And then those from the rows it leads to end as well. -/
lemma ScopeWalk.of_leads {steps row next : Nat} {result : Except Malformed String}
    (h : m.ScopeWalk steps (.outer row) result) (hleads : m.ScopeLeads row next) :
    ∃ left < steps, m.ScopeWalk left (.outer next) result := by
  obtain ⟨found, hrow, hscope⟩ := typeRef_of_scopeLeads hleads
  cases h with
  | outer hrow' hwalk =>
    rw [hrow] at hrow'
    cases hrow'
    rw [hscope] at hwalk
    exact ⟨_, Nat.lt_succ_self _, hwalk⟩
  | absentOuter hrow' =>
    rw [hrow] at hrow'
    cases hrow'

lemma exists_scopeWalk_iff {row : Nat} :
    (∃ steps result, m.ScopeWalk steps (.outer row) result) ↔ ¬Turns m.ScopeLeads row := by
  rw [← acc_iff_not_turns mem_Icc_of_scopeLeads]
  constructor
  · rintro ⟨steps, result, hwalk⟩
    induction steps using Nat.strongRecOn generalizing row with
    | ind steps ih =>
      refine .intro row fun next hleads => ?_
      obtain ⟨left, hlt, hnext⟩ := hwalk.of_leads hleads
      exact ih left hlt hnext
  · intro hacc
    induction hacc with
    | intro row _ ih => exact exists_scopeWalk_of_leads ih

/-- Fuel is used up on walks without an end only. -/
lemma exists_scopeWalk_of_scopeAssembly {fuel : Nat} {scope : RefScope}
    (h : m.scopeAssembly fuel scope ≠ .error .endless) : ∃ steps result, m.ScopeWalk steps scope result := by
  fun_induction scopeAssembly m fuel scope with
  | case1 => exact ⟨_, _, .own⟩
  | case2 fuel row cause hrow => exact ⟨_, _, .absentAssembly hrow⟩
  | case3 fuel row found hrow => exact ⟨_, _, .assembly hrow⟩
  | case4 fuel row cause hrow => exact ⟨_, _, .absentOuter hrow⟩
  | case5 row found hrow => exact absurd rfl h
  | case6 row found hrow fuel ih =>
    obtain ⟨steps, result, hwalk⟩ := ih h
    exact ⟨_, _, .outer hrow hwalk⟩

lemma referenceAssembly_eq_endless {row : Nat} (h : ∀ steps result, ¬m.ScopeWalk steps (.outer row) result) :
    m.referenceAssembly row = .error .endless := by
  unfold referenceAssembly
  cases hrow : m.typeRef row with
  | error cause => exact absurd (.absentOuter hrow) (h _ _)
  | ok found =>
    by_contra hfound
    obtain ⟨steps, result, hwalk⟩ := exists_scopeWalk_of_scopeAssembly hfound
    exact h _ _ (.outer hrow hwalk)

/-- The walk from a reference to its assembly ends exactly where no row on its way leads back
to itself. -/
theorem scope_walk_ends_unless_it_turns (m : Module) (row : Nat) :
    ((∃ steps result, m.ScopeWalk steps (.outer row) result) ↔ ¬Turns m.ScopeLeads row) ∧
      (∀ steps result, m.ScopeWalk steps (.outer row) result →
        steps ≤ m.typeRefs.size ∧ m.referenceAssembly row = result.mapError .malformed ∧
          ∀ name, result = .ok name → name = m.assembly ∨
            ∃ other found, m.assemblyRef other = .ok found ∧ m.strings.get found.name = .ok name) ∧
      (m.referenceAssembly row = .error .endless ↔ Turns m.ScopeLeads row) := by
  refine ⟨exists_scopeWalk_iff, ?_, ?_⟩
  · intro steps result hwalk
    exact ⟨hwalk.steps_le, hwalk.referenceAssembly_eq, fun name hresult => hwalk.ok_cases hresult⟩
  · constructor
    · intro hendless
      by_contra hturns
      obtain ⟨steps, result, hwalk⟩ := exists_scopeWalk_iff.mpr hturns
      rw [hwalk.referenceAssembly_eq] at hendless
      cases result <;> cases hendless
    · intro hturns
      apply referenceAssembly_eq_endless
      intro steps result hwalk
      exact exists_scopeWalk_iff.mp ⟨steps, result, hwalk⟩ hturns

/-- A module whose first reference names itself as its scope. -/
def ringBuilder : Builder := (Builder.ofAssembly "Rings").after (.typeReference (.outer 1) "Rings" "Ring")

/-- A reference may be built into its own scope, and then the walk from it has no end. -/
theorem own_scope_has_no_end :
    (Builder.ofAssembly "Rings").reply (.typeReference (.outer 1) "Rings" "Ring") =
        .ok (.token (.reference 1)) ∧
      ∀ steps result, ¬ringBuilder.module.ScopeWalk steps (.outer 1) result := by
  have hself : ringBuilder.module.ScopeLeads 1 1 := rfl
  refine ⟨rfl, fun steps result hwalk => ?_⟩
  obtain ⟨left, hlt, hagain⟩ := hwalk.of_leads hself
  obtain ⟨heq, -⟩ := hagain.unique hwalk
  omega

end TypeAtlas.Metadata.Module
