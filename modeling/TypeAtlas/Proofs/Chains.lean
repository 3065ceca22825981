import Mathlib.Logic.Relation
import Mathlib.Order.Interval.Finset.Nat
import Mathlib.Order.WellFounded
import TypeAtlas.Metadata.Module
import TypeAtlas.Metadata.Signature

/-!
Chains of rows. A specification leads to the specifications in its type, and a reference to
the one that its type is nested in. Following a chain passes rows of a table that all lead to
the present one; where no row leads back to itself they are different, so there are no more of
them than rows. Main statement: fuel for as many rows as the table has is never used up.
-/

namespace TypeAtlas.Metadata

mutual

def SigType.tokens : SigType → List Token
  | .classType token | .valueType token => [token]
  | .inst generic _ args => generic :: SigType.tokensEach args
  | .vector element | .array element _ => element.tokens
  | .byRef target | .pointer target => target.tokens
  | .builtin _ | .typeParam _ | .methodParam _ => []

def SigType.tokensEach : List SigType → List Token
  | [] => []
  | type :: types => type.tokens ++ SigType.tokensEach types

end

def Token.specRow? : Token → Option Nat
  | .specification row => some row
  | .definition _ | .reference _ => none

namespace Module

variable {α : Type} {m : Module} {type : SigType} {fault : Fault}

/-- The type that a specification stands for. -/
def specType (m : Module) (row : Nat) : Except Malformed SigType := do
  let spec ← m.typeSpec row
  let blob ← m.blobs.get spec.signature
  SigType.ofBlob blob

/-- The specifications in the type of a specification. -/
def nextSpecs (m : Module) (row : Nat) : List Nat :=
  match m.specType row with
  | .ok type => type.tokens.filterMap Token.specRow?
  | .error _ => []

/-- The reference that the type of a reference is nested in. -/
def outerRef? (m : Module) (row : Nat) : Option Nat :=
  match m.typeRef row with
  | .ok ref =>
    match ref.scope with
    | .outer next => some next
    | .ownModule | .assembly _ => none
  | .error _ => none

/-- A specification leads to those in its type. -/
def SpecLeads (m : Module) (row next : Nat) : Prop := next ∈ m.nextSpecs row

/-- A reference leads to the one that its type is nested in. -/
def ScopeLeads (m : Module) (row next : Nat) : Prop := m.outerRef? row = some next

/-- No row leads back to itself. -/
structure Acyclic (m : Module) : Prop where
  specs : ∀ row, ¬Relation.TransGen m.SpecLeads row row
  scopes : ∀ row, ¬Relation.TransGen m.ScopeLeads row row

lemma mem_Icc_of_row {name : TableName} {table : Array α} {i : Nat} {found : α}
    (h : row name table i = .ok found) : i ∈ Finset.Icc 1 table.size := by
  unfold row at h
  split at h
  · cases h
  · split at h
    · rename_i hfound
      obtain ⟨hlt, -⟩ := Array.getElem?_eq_some_iff.mp hfound
      rw [Finset.mem_Icc]
      omega
    · cases h

lemma specLeads_of_specType {row next : Nat} (htype : m.specType row = .ok type)
    (hmem : .specification next ∈ type.tokens) : m.SpecLeads row next := by
  rw [SpecLeads, nextSpecs, htype]
  exact List.mem_filterMap.mpr ⟨.specification next, hmem, rfl⟩

lemma specLeads_of_mem {row next : Nat} {spec : TypeSpecRow} {blob : Bytes} (hspec : m.typeSpec row = .ok spec)
    (hblob : m.blobs.get spec.signature = .ok blob) (htype : SigType.ofBlob blob = .ok type)
    (hmem : .specification next ∈ type.tokens) : m.SpecLeads row next := by
  have hrow : m.specType row = .ok type := by
    simp [specType, hspec, hblob, htype, bind, Except.bind]
  exact specLeads_of_specType hrow hmem

lemma specType_of_specLeads {row next : Nat} (h : m.SpecLeads row next) :
    ∃ type, m.specType row = .ok type ∧ .specification next ∈ type.tokens := by
  unfold SpecLeads nextSpecs at h
  cases htype : m.specType row with
  | error cause => simp [htype] at h
  | ok type =>
    rw [htype] at h
    obtain ⟨token, hmem, hrow⟩ := List.mem_filterMap.mp h
    cases token with
    | specification other =>
      cases hrow
      exact ⟨type, rfl, hmem⟩
    | definition | reference => cases hrow

lemma mem_Icc_of_specType {row : Nat} (h : m.specType row = .ok type) : row ∈ Finset.Icc 1 m.typeSpecs.size := by
  unfold specType at h
  cases hspec : m.typeSpec row with
  | ok spec => exact mem_Icc_of_row hspec
  | error cause => simp [hspec, bind, Except.bind] at h

lemma mem_Icc_of_specLeads (row next : Nat) (h : m.SpecLeads row next) :
    row ∈ Finset.Icc 1 m.typeSpecs.size := by
  obtain ⟨type, htype, -⟩ := specType_of_specLeads h
  exact mem_Icc_of_specType htype

lemma scopeLeads_of_outer {row next : Nat} {ref : TypeRefRow} (href : m.typeRef row = .ok ref)
    (hscope : ref.scope = .outer next) : m.ScopeLeads row next := by
  simp [ScopeLeads, outerRef?, href, hscope]

lemma typeRef_of_scopeLeads {row next : Nat} (h : m.ScopeLeads row next) :
    ∃ ref, m.typeRef row = .ok ref ∧ ref.scope = .outer next := by
  unfold ScopeLeads outerRef? at h
  cases href : m.typeRef row with
  | error cause => simp [href] at h
  | ok ref =>
    cases hscope : ref.scope <;> simp [href, hscope] at h
    exact ⟨ref, rfl, by rw [hscope, h]⟩

lemma mem_Icc_of_scopeLeads (row next : Nat) (h : m.ScopeLeads row next) :
    row ∈ Finset.Icc 1 m.typeRefs.size := by
  obtain ⟨ref, href, -⟩ := typeRef_of_scopeLeads h
  exact mem_Icc_of_row href

/-- Rows that lead to earlier rows of their table only do not lead back to themselves. -/
lemma not_transGen_self_of_lt {leads : Nat → Nat → Prop}
    (hback : ∀ row next, leads row next → next < row) (row : Nat) : ¬Relation.TransGen leads row row := by
  have hlt : ∀ next, Relation.TransGen leads row next → next < row := by
    intro next h
    induction h with
    | single hnext => exact hback _ _ hnext
    | tail _ hnext ih => exact Nat.lt_trans (hback _ _ hnext) ih
  exact fun h => Nat.lt_irrefl row (hlt row h)

lemma acyclic_of_backward
    (hspecs : ∀ row ∈ Finset.Icc 1 m.typeSpecs.size, ∀ next ∈ m.nextSpecs row, next < row)
    (hscopes : ∀ row ∈ Finset.Icc 1 m.typeRefs.size, ∀ next ∈ m.outerRef? row, next < row) :
    m.Acyclic where
  specs := by
    apply not_transGen_self_of_lt
    intro row next hnext
    exact hspecs row (mem_Icc_of_specLeads row next hnext) next hnext
  scopes := by
    apply not_transGen_self_of_lt
    intro row next hnext
    exact hscopes row (mem_Icc_of_scopeLeads row next hnext) next hnext

/-- Some row that can be reached from `row`, or `row` itself, leads back to itself. -/
def Turns (leads : Nat → Nat → Prop) (row : Nat) : Prop :=
  ∃ back, Relation.ReflTransGen leads row back ∧ Relation.TransGen leads back back

lemma Turns.of_leads {leads : Nat → Nat → Prop} {row next : Nat} (hleads : leads row next)
    (h : Turns leads next) : Turns leads row := by
  obtain ⟨back, hreach, hback⟩ := h
  exact ⟨back, .head hleads hreach, hback⟩

/-- A table has so few rows that a chain without an end passes one of them twice. -/
lemma acc_iff_not_turns {leads : Nat → Nat → Prop} {size row : Nat}
    (hrows : ∀ row next, leads row next → row ∈ Finset.Icc 1 size) :
    Acc (fun next row => leads row next) row ↔ ¬Turns leads row := by
  constructor
  · intro hacc
    induction hacc with
    | intro row _ ih =>
      rintro ⟨back, hreach, hback⟩
      rcases Relation.ReflTransGen.cases_head hreach with rfl | ⟨next, hleads, hrest⟩
      · obtain ⟨next, hleads, hrest⟩ := Relation.TransGen.head'_iff.mp hback
        exact ih next hleads ⟨row, hrest, hback⟩
      · exact ih next hleads ⟨back, hrest, hback⟩
  · intro hturns
    by_contra hacc
    obtain ⟨chain, rfl, hchain⟩ := not_acc_iff_exists_descending_chain.mp hacc
    have hlater : ∀ i n, Relation.ReflTransGen leads (chain i) (chain (i + n)) := by
      intro i n
      induction n with
      | zero => exact .refl
      | succ n ih => exact ih.tail (hchain (i + n))
    have hrange : Set.MapsTo chain Set.univ (Finset.Icc 1 size : Finset Nat) :=
      fun i _ => hrows (chain i) _ (hchain i)
    obtain ⟨i, -, j, -, hne, heq⟩ :=
      Set.infinite_univ.exists_ne_map_eq_of_mapsTo hrange (Finset.finite_toSet _)
    -- Of the two places at which one row is passed, the first leads to the second.
    wlog hlt : i < j generalizing i j
    · exact this j i hne.symm heq.symm (by omega)
    obtain ⟨n, rfl⟩ : ∃ n, j = i + 1 + n := ⟨j - (i + 1), by omega⟩
    have hreach : Relation.ReflTransGen leads (chain 0) (chain i) := by
      have hfrom := hlater 0 i
      rwa [Nat.zero_add] at hfrom
    have hback : Relation.TransGen leads (chain i) (chain (i + 1 + n)) :=
      Relation.TransGen.head' (hchain i) (hlater (i + 1) n)
    rw [← heq] at hback
    exact hturns ⟨chain i, hreach, hback⟩

/-- On the way to `row`, with `fuel` left, so many rows of a table of `size` rows were passed
that the fuel covers the others. -/
def Passed (leads : Nat → Nat → Prop) (size row fuel : Nat) : Prop :=
  ∃ seen ⊆ Finset.Icc 1 size, (∀ other ∈ seen, Relation.TransGen leads other row) ∧
    size ≤ fuel + seen.card

namespace Passed

variable {leads : Nat → Nat → Prop} {size row next fuel : Nat}

lemma start (leads : Nat → Nat → Prop) (size row : Nat) : Passed leads size row size :=
  ⟨∅, Finset.empty_subset _, by simp, by simp⟩

/-- The present row is none of those passed before. -/
lemma card_insert (hback : ¬Relation.TransGen leads row row) {seen : Finset Nat}
    (hseen : ∀ other ∈ seen, Relation.TransGen leads other row) :
    (insert row seen).card = seen.card + 1 :=
  Finset.card_insert_of_notMem fun hmem => hback (hseen row hmem)

lemma step (hback : ¬Relation.TransGen leads row row) (hrow : row ∈ Finset.Icc 1 size)
    (hleads : leads row next) (h : Passed leads size row (fuel + 1)) : Passed leads size next fuel := by
  obtain ⟨seen, hsub, hseen, hsize⟩ := h
  refine ⟨insert row seen, Finset.insert_subset hrow hsub, ?_, ?_⟩
  · intro other hmem
    rcases Finset.mem_insert.mp hmem with rfl | hmem
    · exact .single hleads
    · exact (hseen other hmem).tail hleads
  · rw [card_insert hback hseen]
    omega

lemma fuel_ne_zero (hback : ¬Relation.TransGen leads row row)
    (hrow : row ∈ Finset.Icc 1 size) (h : Passed leads size row fuel) : fuel ≠ 0 := by
  obtain ⟨seen, hsub, hseen, hsize⟩ := h
  have hcard := Finset.card_le_card (Finset.insert_subset hrow hsub)
  rw [card_insert hback hseen, Nat.card_Icc] at hcard
  omega

end Passed

/-- Following scopes fails on what cannot be read, or where a scope leads back to itself. -/
lemma scopeAssembly_eq_error {fuel : Nat} {scope : RefScope}
    (hpassed : m.Acyclic → ∀ row, scope = .outer row → Passed m.ScopeLeads m.typeRefs.size row fuel)
    (h : m.scopeAssembly fuel scope = .error fault) :
    (∃ cause, fault = .malformed cause) ∨ fault = .endless ∧ ¬m.Acyclic := by
  fun_induction scopeAssembly m fuel scope with
  | case1 => cases h
  | case2 fuel row cause hcause => exact .inl ⟨cause, (Except.error.inj h).symm⟩
  | case3 fuel row found hfound =>
    cases hname : m.strings.get found.name with
    | ok name =>
      rw [hname] at h
      cases h
    | error cause =>
      rw [hname] at h
      exact .inl ⟨cause, (Except.error.inj h).symm⟩
  | case4 fuel row cause hcause => exact .inl ⟨cause, (Except.error.inj h).symm⟩
  | case5 row found hfound =>
    refine .inr ⟨(Except.error.inj h).symm, fun hacyclic => ?_⟩
    exact (hpassed hacyclic row rfl).fuel_ne_zero (hacyclic.scopes row) (mem_Icc_of_row hfound) rfl
  | case6 row found hfound fuel ih =>
    refine ih (fun hacyclic next hnext => ?_) h
    exact (hpassed hacyclic row rfl).step (hacyclic.scopes row) (mem_Icc_of_row hfound)
      (scopeLeads_of_outer hfound hnext)

lemma referenceAssembly_eq_error {row : Nat}
    (h : m.referenceAssembly row = .error fault) :
    (∃ cause, fault = .malformed cause) ∨ fault = .endless ∧ ¬m.Acyclic := by
  unfold referenceAssembly at h
  split at h
  · exact .inl ⟨_, (Except.error.inj h).symm⟩
  · exact scopeAssembly_eq_error (fun _ next _ => .start m.ScopeLeads m.typeRefs.size next) h

end Module

end TypeAtlas.Metadata
