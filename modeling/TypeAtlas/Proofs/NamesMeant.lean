import TypeAtlas.Atlas.Scope
import TypeAtlas.Proofs.PlainNames

/-!
The full names that a written name can stand for, said without an order: the name itself, the
name in an enclosing namespace, and what the using directives make of it. Main statement: these
are just the names among the candidates of a scope that has no alias of a type with arguments.
-/

namespace TypeAtlas

namespace Text

lemma splitFirst_append {c : Char} {before after : List Char} (h : c ∉ before) :
    splitFirst c (before ++ c :: after) = some (before, after) := by
  induction before with
  | nil => exact if_pos rfl
  | cons x before ih =>
    obtain ⟨hne, hmem⟩ : x ≠ c ∧ c ∉ before := by simpa [eq_comm] using h
    rw [List.cons_append, splitFirst, if_neg hne, ih hmem]
    rfl

variable {c : Char} {s before after : String}

lemma map_ofList_eq_some_iff {parts : Option (List Char × List Char)} :
    parts.map (fun found => (String.ofList found.1, String.ofList found.2)) = some (before, after) ↔
      parts = some (before.toList, after.toList) := by
  constructor
  · intro h
    obtain ⟨found, rfl, heq⟩ := Option.map_eq_some_iff.mp h
    cases heq
    rw [String.toList_ofList, String.toList_ofList]
  · rintro rfl
    rw [Option.map_some, String.ofList_toList, String.ofList_toList]

lemma cutFirst_eq_some_iff :
    cutFirst c s = some (before, after) ↔ s.toList = before.toList ++ c :: after.toList ∧ c ∉ before.toList :=
  map_ofList_eq_some_iff.trans ⟨splitFirst_eq_some, fun ⟨hs, hbefore⟩ => hs ▸ splitFirst_append hbefore⟩

lemma cutFirst_eq_none_iff : cutFirst c s = none ↔ c ∉ s.toList := by
  constructor
  · intro h hmem
    obtain ⟨first, rest, hs, hfirst⟩ := List.eq_append_cons_of_mem hmem
    rw [cutFirst, hs, splitFirst_append hfirst] at h
    cases h
  · intro h
    cases hcut : cutFirst c s with
    | none => rfl
    | some parts =>
      have hs := (cutFirst_eq_some_iff.mp hcut).1
      rw [hs] at h
      exact absurd (List.mem_append_right _ List.mem_cons_self) h

lemma cutLast_eq_some_iff :
    cutLast c s = some (before, after) ↔ s.toList = before.toList ++ c :: after.toList ∧ c ∉ after.toList :=
  map_ofList_eq_some_iff.trans ⟨splitLast_eq_some, fun ⟨hs, hafter⟩ => hs ▸ splitLast_append hafter⟩

lemma cutLast_eq_none_iff : cutLast c s = none ↔ c ∉ s.toList := by
  rw [cutLast, Option.map_eq_none_iff]
  exact splitLast_eq_none

end Text

namespace Scope

variable {scope : Scope} {name fullName : String} {outer ns title target : String}
  {candidate : Candidate}

/-- A namespace around another one, or that one itself. -/
def Encloses (outer ns : String) : Prop :=
  outer ≠ "" ∧ (ns = outer ∨ ∃ inner, ns = outer ++ "." ++ inner)

lemma encloses_iff_toList : Encloses outer ns ↔
    outer ≠ "" ∧ (ns = outer ∨ ∃ inner, ns.toList = outer.toList ++ '.' :: inner) := by
  refine and_congr_right fun _ => or_congr_right ⟨?_, ?_⟩
  · rintro ⟨inner, rfl⟩
    exact ⟨inner.toList, by simp⟩
  · rintro ⟨inner, hns⟩
    exact ⟨String.ofList inner, String.toList_inj.mp (by simp [hns])⟩

/-- The namespaces around one are itself and those around the next outer one. -/
lemma encloses_iff {around last : String} (hcut : Text.cutLast '.' ns = some (around, last)) :
    Encloses outer ns ↔ outer = ns ∧ ns ≠ "" ∨ Encloses outer around := by
  obtain ⟨hns, hlast⟩ := Text.cutLast_eq_some_iff.mp hcut
  simp only [encloses_iff_toList]
  constructor
  · rintro ⟨hne, rfl | ⟨inner, hinner⟩⟩
    · exact .inl ⟨rfl, hne⟩
    · refine .inr ⟨hne, ?_⟩
      -- The last dot is the one behind the outer part or a later one.
      rcases List.append_eq_append_iff.mp (hinner.symm.trans hns) with
        ⟨between, haround, hrest⟩ | ⟨between, houter, hrest⟩
      · cases between with
        | nil => exact .inl (String.toList_inj.mp (by simpa using haround))
        | cons c between =>
          obtain ⟨rfl, -⟩ := List.cons.inj hrest
          exact .inr ⟨between, haround⟩
      · cases between with
        | nil => exact .inl (String.toList_inj.mp (by simpa using houter.symm))
        | cons c between =>
          obtain ⟨-, hsame⟩ := List.cons.inj hrest
          rw [hsame] at hlast
          exact absurd (List.mem_append_right _ List.mem_cons_self) hlast
  · rintro (⟨rfl, hne⟩ | ⟨hne, rfl | ⟨inner, hinner⟩⟩)
    · exact ⟨hne, .inl rfl⟩
    · exact ⟨hne, .inr ⟨last.toList, hns⟩⟩
    · exact ⟨hne, .inr ⟨inner ++ '.' :: last.toList, by simp [hns, hinner]⟩⟩

lemma not_encloses_empty (outer : String) : ¬Encloses outer "" := by
  rintro ⟨hne, heq | ⟨inner, hinner⟩⟩
  · exact hne heq.symm
  · have htoList := congrArg String.toList hinner
    simp at htoList

lemma enclosing_empty (fuel : Nat) : enclosing fuel "" = [] := by
  unfold enclosing
  rfl

/-- As many steps as a namespace has characters lead through all that enclose it. -/
lemma mem_enclosing_iff {fuel : Nat} (hfuel : ns.length ≤ fuel) : outer ∈ enclosing fuel ns ↔ Encloses outer ns := by
  induction fuel generalizing ns with
  | zero =>
    obtain rfl : ns = "" := by simpa [String.length_eq_zero_iff] using hfuel
    rw [enclosing_empty]
    exact ⟨fun hmem => (nomatch hmem), fun h => absurd h (not_encloses_empty outer)⟩
  | succ fuel ih =>
    by_cases hempty : ns = ""
    · rw [hempty, enclosing_empty]
      exact ⟨fun hmem => (nomatch hmem), fun h => absurd h (not_encloses_empty outer)⟩
    have hne : ¬ns.isEmpty = true := fun h => hempty (String.isEmpty_iff.mp h)
    cases hcut : Text.cutLast '.' ns with
    | none =>
      have hdot := Text.cutLast_eq_none_iff.mp hcut
      unfold enclosing
      rw [if_neg hne, hcut, List.mem_singleton, encloses_iff_toList]
      constructor
      · rintro rfl
        exact ⟨hempty, .inl rfl⟩
      · rintro ⟨-, rfl | ⟨inner, hinner⟩⟩
        · rfl
        · rw [hinner] at hdot
          exact absurd (List.mem_append_right _ List.mem_cons_self) hdot
    | some parts =>
      obtain ⟨around, last⟩ := parts
      have hlength := congrArg List.length (Text.cutLast_eq_some_iff.mp hcut).1
      simp only [String.length_toList, List.length_append, List.length_cons] at hlength
      have hshorter : around.length ≤ fuel := by omega
      unfold enclosing
      rw [if_neg hne, hcut, List.mem_cons, ih hshorter, encloses_iff hcut, and_iff_left hempty]

/-- The full names that a name can stand for. -/
inductive Means (scope : Scope) (name : String) : String → Prop
  | written : Means scope name name
  | enclosed {outer : String} : Encloses outer scope.ns → Means scope name (outer ++ "." ++ name)
  | opened {directive : String} : directive ∈ scope.usings → '=' ∉ directive.toList →
      Means scope name (qualify (Text.trim directive) name)
  /-- An alias that is the whole name. -/
  | aliased {title target : String} : title ++ "=" ++ target ∈ scope.usings → '=' ∉ title.toList →
      Text.trim title = name → '.' ∉ name.toList → Means scope name (Text.trim target)
  /-- An alias that is the name up to its first dot. -/
  | within {title target rest : String} : title ++ "=" ++ target ∈ scope.usings → '=' ∉ title.toList →
      name = Text.trim title ++ "." ++ rest → '.' ∉ (Text.trim title).toList →
        Means scope name (Text.trim target ++ "." ++ rest)

def HasGenericAlias (scope : Scope) : Prop :=
  ∃ title target ref, title ++ "=" ++ target ∈ scope.usings ∧ '=' ∉ title.toList ∧
    '<' ∈ (Text.trim target).toList ∧ TypeRef.parse (Text.trim target) = .ok ref

lemma cutFirst_alias (h : '=' ∉ title.toList) : Text.cutFirst '=' (title ++ "=" ++ target) = some (title, target) :=
  Text.cutFirst_eq_some_iff.mpr ⟨by simp, h⟩

/-- A directive has an equals sign, before which stands an alias, or none. -/
lemma alias_or_opened (directive : String) :
    '=' ∉ directive.toList ∨ ∃ title target, directive = title ++ "=" ++ target ∧ '=' ∉ title.toList := by
  cases hcut : Text.cutFirst '=' directive with
  | none => exact .inl (Text.cutFirst_eq_none_iff.mp hcut)
  | some parts =>
    obtain ⟨hdirective, htitle⟩ := Text.cutFirst_eq_some_iff.mp hcut
    exact .inr ⟨parts.1, parts.2, String.toList_inj.mp (by simp [hdirective]), htitle⟩

/-- What a directive without an equals sign makes of a name. -/
lemma usingCandidate_opened {directive : String} (h : '=' ∉ directive.toList) :
    usingCandidate name directive = some (.name (qualify (Text.trim directive) name)) := by
  rw [usingCandidate, Text.cutFirst_eq_none_iff.mpr h]

/-- What an alias makes of a name without a dot. -/
lemma usingCandidate_aliased (htitle : '=' ∉ title.toList) (hname : '.' ∉ name.toList) :
    usingCandidate name (title ++ "=" ++ target) =
      if Text.trim title = name then some (aliasCandidate (Text.trim target) none) else none := by
  rw [usingCandidate, cutFirst_alias htitle]
  dsimp only
  rw [Text.cutFirst_eq_none_iff.mpr hname]

/-- What an alias makes of a name with a dot. -/
lemma usingCandidate_within {head rest : String} (htitle : '=' ∉ title.toList) (hhead : '.' ∉ head.toList) :
    usingCandidate (head ++ "." ++ rest) (title ++ "=" ++ target) =
      if Text.trim title = head then some (.name (Text.trim target ++ "." ++ rest)) else none := by
  have hcut : Text.cutFirst '.' (head ++ "." ++ rest) = some (head, rest) :=
    Text.cutFirst_eq_some_iff.mpr ⟨by simp, hhead⟩
  rw [usingCandidate, cutFirst_alias htitle]
  dsimp only
  rw [hcut]
  rfl

/-- An alias of a type without arguments stands for a name. -/
lemma aliasCandidate_name (hplain : ¬scope.HasGenericAlias) (hmem : title ++ "=" ++ target ∈ scope.usings)
    (htitle : '=' ∉ title.toList) : aliasCandidate (Text.trim target) none = .name (Text.trim target) := by
  unfold aliasCandidate
  dsimp only
  split
  · rename_i hopen
    split
    · rename_i ref hparse
      exact absurd ⟨title, target, ref, hmem, htitle, by simpa using hopen, hparse⟩ hplain
    · rfl
  · rfl

lemma means_of_usingCandidate (hplain : ¬scope.HasGenericAlias) {directive : String}
    (hmem : directive ∈ scope.usings) (h : usingCandidate name directive = some candidate) :
    ∃ fullName, candidate = .name fullName ∧ scope.Means name fullName := by
  rcases alias_or_opened directive with hopened | ⟨title, target, rfl, htitle⟩
  · rw [usingCandidate_opened hopened] at h
    cases h
    exact ⟨_, rfl, .opened hmem hopened⟩
  · cases hcut : Text.cutFirst '.' name with
    | none =>
      have hname := Text.cutFirst_eq_none_iff.mp hcut
      rw [usingCandidate_aliased htitle hname] at h
      split at h
      · rename_i htitled
        rw [aliasCandidate_name hplain hmem htitle] at h
        cases h
        exact ⟨_, rfl, .aliased hmem htitle htitled hname⟩
      · cases h
    | some parts =>
      obtain ⟨hname, hhead⟩ := Text.cutFirst_eq_some_iff.mp hcut
      obtain rfl : name = parts.1 ++ "." ++ parts.2 := String.toList_inj.mp (by simp [hname])
      rw [usingCandidate_within htitle hhead] at h
      split at h
      · rename_i htitled
        rw [← htitled] at hhead ⊢
        cases h
        exact ⟨_, rfl, .within hmem htitle rfl hhead⟩
      · cases h

/-- The candidates of a name are itself, the name in an enclosing namespace, and what the using
directives make of it. -/
lemma mem_candidates_iff : candidate ∈ scope.candidates name ↔
    candidate = .name name ∨ (∃ outer, Encloses outer scope.ns ∧ candidate = .name (outer ++ "." ++ name)) ∨
      ∃ directive ∈ scope.usings, usingCandidate name directive = some candidate := by
  rw [candidates, List.cons_append, List.mem_cons, List.mem_append, List.mem_map, List.mem_filterMap]
  refine or_congr_right (or_congr_left (exists_congr fun outer => ?_))
  rw [mem_enclosing_iff (Nat.le_refl _)]
  refine and_congr_right fun hencloses => ?_
  rw [qualify, if_neg (fun h => hencloses.1 (String.isEmpty_iff.mp h)), eq_comm]

/-- The names that a name can stand for are those among its candidates, and all candidates are
names. -/
lemma candidates_iff (hplain : ¬scope.HasGenericAlias) (candidate : Candidate) :
    candidate ∈ scope.candidates name ↔ ∃ fullName, candidate = .name fullName ∧ scope.Means name fullName := by
  rw [mem_candidates_iff]
  constructor
  · rintro (rfl | ⟨outer, hencloses, rfl⟩ | ⟨directive, hmem, hcandidate⟩)
    · exact ⟨name, rfl, .written⟩
    · exact ⟨_, rfl, .enclosed hencloses⟩
    · exact means_of_usingCandidate hplain hmem hcandidate
  · rintro ⟨fullName, rfl, hmeans⟩
    cases hmeans with
    | written => exact .inl rfl
    | @enclosed outer hencloses => exact .inr (.inl ⟨outer, hencloses, rfl⟩)
    | @opened directive hmem hopened => exact .inr (.inr ⟨directive, hmem, usingCandidate_opened hopened⟩)
    | @aliased title target hmem htitle htitled hname =>
      refine .inr (.inr ⟨_, hmem, ?_⟩)
      rw [usingCandidate_aliased htitle hname, if_pos htitled, aliasCandidate_name hplain hmem htitle]
    | @within title target rest hmem htitle hname hhead =>
      refine .inr (.inr ⟨_, hmem, ?_⟩)
      rw [hname, usingCandidate_within htitle hhead, if_pos rfl]

lemma mem_names_iff (hplain : ¬scope.HasGenericAlias) :
    fullName ∈ Candidate.names (scope.candidates name) ↔ scope.Means name fullName := by
  rw [Candidate.names, List.mem_filterMap]
  constructor
  · rintro ⟨candidate, hmem, hname⟩
    obtain ⟨other, rfl, hmeans⟩ := (candidates_iff hplain candidate).mp hmem
    cases hname
    exact hmeans
  · intro hmeans
    exact ⟨_, (candidates_iff hplain _).mpr ⟨fullName, rfl, hmeans⟩, rfl⟩

lemma not_aliased (hplain : ¬scope.HasGenericAlias) (name : String) (target : TypeRef) :
    .aliased target ∉ scope.candidates name := by
  intro hmem
  obtain ⟨_, heq, -⟩ := (candidates_iff hplain _).mp hmem
  cases heq

end Scope

end TypeAtlas
