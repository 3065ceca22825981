import TypeAtlas.Proofs.Indexing
import TypeAtlas.Proofs.LoadState
import TypeAtlas.Proofs.Permanence

/-!
Atlases that are filled by whole documents and whole modules. Main statement: everything that
the modules at hand define is registered there, so nothing that is looked for later brings in
a declaration. A definition may stand under another key than the one it is looked for first:
the marker in its name and its generic parameters need not agree.
-/

namespace TypeAtlas

variable {b : Atlas} {id : DeclId} {row : Nat}

/-- The calls that register whole documents and whole modules. -/
def Call.registers : Call → Bool
  | .addDocument _ | .importLibrary _ => true
  | _ => false

namespace Atlas

/-- All declarations and modules of the atlas were registered by calls for whole documents and
whole modules that succeeded. Any other calls may have been made that registered nothing. -/
inductive Enrolled : Atlas → Prop
  | initial (settings : Settings) : Enrolled { settings }
  | enrol {a : Atlas} (call : Call) : Enrolled a → call.registers = true →
      (call.work.exec a).1 = .ok () → Enrolled (a.after call)
  | other {a : Atlas} (call : Call) : Enrolled a → (a.after call).graph.size = a.graph.size →
      (a.after call).libraries = a.libraries → Enrolled (a.after call)

/-- A definition is registered, under the key it is looked for first or under its own. -/
def Defined (a : Atlas) (library : Library) (row : Nat) : Prop :=
  ∃ key id, a.graph.findQualified key = some id ∧
    (library.markedKey row = .ok key ∨
      ∃ d, Declaration.ofDefinition none library row = .ok d ∧ d.key = key)

/-- Declarations of modules are of modules at hand. -/
def Homed (a : Atlas) : Prop :=
  ∀ {id d m row}, a.graph.get? id = some d → d.provenance = .module m row → ⟨m, d.location⟩ ∈ a.libraries

/-- Nothing can be brought in. -/
structure Complete (a : Atlas) : Prop where
  indexed : a.graph.Indexed
  settled : a.graph.Settled
  homed : a.Homed
  defined : ∀ library ∈ a.libraries, ∀ row ∈ library.module.typeDefRows, a.Defined library row

lemma Complete.initial (settings : Settings) : Complete { settings } where
  indexed := .initial
  settled := .initial
  homed := by intro id d m row hd; simp [Graph.get?] at hd
  defined := by simp

/-- What is registered stays registered. -/
lemma Lasts.findQualified {a : Atlas} (h : a.Lasts b) (ha : a.graph.Indexed) (hb : b.graph.Indexed) {key : Key}
    (hid : a.graph.findQualified key = some id) : b.graph.findQualified key = some id := by
  obtain ⟨d, hd, hkey⟩ := (ha.byKey key id).mp hid
  obtain ⟨e, he, hbecomes, -⟩ := h id d hd
  refine (hb.byKey key id).mpr ⟨e, he, ?_⟩
  rw [hbecomes.header]
  exact hkey

lemma Defined.lasts {a : Atlas} {library : Library} (h : a.Defined library row) (hlasts : a.Lasts b)
    (ha : a.graph.Indexed) (hb : b.graph.Indexed) : b.Defined library row := by
  obtain ⟨key, id, hid, hkey⟩ := h
  exact ⟨key, id, hlasts.findQualified ha hb hid, hkey⟩

end Atlas

lemma Call.keeps_indexed (call : Call) : Work.Keeps (·.graph.Indexed) call.work :=
  Call.keeps (fun d _ => Work.register_keeps_indexed d) (fun _ _ ha => ha)
    Work.setData_keeps_indexed Work.load_keeps_indexed call

namespace Work

variable {library : Library} {libraries : List Library}

lemma defined_of_define {a : Atlas} (ha : a.graph.Indexed) (h : (define library row).exec a = (.ok id, b)) :
    b.Defined library row := by
  obtain ⟨key, hkey, ⟨hfound, rfl⟩ | ⟨-, d, hd, rfl, rfl⟩⟩ := define_eq_ok h
  · exact ⟨key, id, hfound, .inl hkey⟩
  · obtain ⟨e, he, hsame⟩ := ha.get?_add_self d
    exact ⟨d.key, _, ((ha.add d).byKey _ _).mpr ⟨e, he, hsame⟩, .inr ⟨d, hd, rfl⟩⟩

lemma register_keeps_defined (library : Library) (row : Nat) (d : Declaration) :
    Keeps (fun a => a.graph.Indexed ∧ a.Defined library row) (register d) := by
  rintro a ⟨ha, hdefined⟩
  have hindexed := register_keeps_indexed d a ha
  exact ⟨hindexed, hdefined.lasts (register_keeps_lasts a d a (.refl a)) ha hindexed⟩

/-- Rows that were all defined one after another are all registered in the end. -/
lemma defined_of_mapM_define {rows : List Nat} {a : Atlas} {ids : List DeclId} (ha : a.graph.Indexed)
    (h : (rows.mapM (define library)).exec a = (.ok ids, b)) : ∀ row ∈ rows, b.Defined library row := by
  induction rows generalizing a ids with
  | nil => simp
  | cons row rows ih =>
    rw [List.mapM_cons] at h
    obtain ⟨id, c, hrow, h⟩ := exec_bind_eq_ok h
    obtain ⟨others, e, hrows, h⟩ := exec_bind_eq_ok h
    cases h
    have hc : c.graph.Indexed ∧ c.Defined library row := by
      have hkept := define_keeps (fun d _ => register_keeps_indexed d) library row a ha
      rw [hrow] at hkept
      exact ⟨hkept, defined_of_define ha hrow⟩
    have hb : b.graph.Indexed ∧ b.Defined library row := by
      have hkept := Keeps.mapM (fun other (_ : other ∈ rows) =>
        define_keeps (fun d _ => register_keeps_defined library row d) library other) c hc
      rwa [hrows] at hkept
    intro other hother
    rcases List.mem_cons.mp hother with rfl | hother
    · exact hb.2
    · exact ih hc.1 hrows other hother

lemma register_keeps_homed {d : Declaration}
    (hd : ∀ {m row}, d.provenance = .module m row → ⟨m, d.location⟩ ∈ libraries) :
    Keeps (fun a => a.Homed ∧ a.libraries = libraries) (register d) := by
  rintro a ⟨ha, rfl⟩
  refine ⟨fun {id e m row} he hprovenance => ?_, rfl⟩
  rcases Graph.get?_add_eq_some he with hold | ⟨-, rfl, -, -⟩
  · exact ha hold hprovenance
  · exact hd hprovenance

lemma define_keeps_homed (hlibrary : library ∈ libraries) (row : Nat) :
    Keeps (fun a => a.Homed ∧ a.libraries = libraries) (define library row) := by
  intro a ha
  rcases exec_define_cases library row a with ⟨r, hrun⟩ | ⟨d, hd, hrun⟩
  · rwa [hrun]
  · rw [hrun]
    refine register_keeps_homed (fun {m other} hprovenance => ?_) a ha
    obtain ⟨kind, ns, raw, generics, -, -, -, rfl⟩ := Declaration.ofDefinition_eq_ok hd
    cases hprovenance
    exact hlibrary

end Work

namespace Atlas

variable {a : Atlas}

/-- A call leaves an atlas complete if its declarations are at home and it defines all of every
module that it adds. -/
lemma Complete.after (h : a.Complete) (call : Call) (hhomed : (a.after call).Homed)
    (hadded : ∀ library ∈ (a.after call).libraries, library ∉ a.libraries →
      ∀ row ∈ library.module.typeDefRows, (a.after call).Defined library row) : (a.after call).Complete where
  indexed := call.keeps_indexed a h.indexed
  settled := call.keeps_settled a h.settled
  homed := hhomed
  defined := by
    intro library hlibrary row hrow
    by_cases hold : library ∈ a.libraries
    · exact (h.defined library hold row hrow).lasts (call.keeps_lasts a a (.refl a)) h.indexed
        (call.keeps_indexed a h.indexed)
    · exact hadded library hlibrary hold row hrow

/-- Where nothing was registered and no module added, the declarations are those from before. -/
lemma Complete.other (h : a.Complete) (call : Call) (hsize : (a.after call).graph.size = a.graph.size)
    (hlibraries : (a.after call).libraries = a.libraries) : (a.after call).Complete := by
  refine h.after call (fun {id e m row} he hprovenance => ?_) fun library hlibrary hnew => ?_
  · obtain ⟨d, hd⟩ := Graph.get?_of_lt_size (hsize ▸ Graph.lt_size_of_get? he)
    obtain ⟨found, hfound, hbecomes, -⟩ := call.keeps_lasts a a (.refl a) id d hd
    obtain rfl : found = e := Option.some.inj (hfound.symm.trans he)
    have hlocation : found.location = d.location := by rw [hbecomes.header]
    have hsame : found.provenance = d.provenance := by rw [hbecomes.header]
    rw [hlibraries, hlocation]
    exact h.homed hd (hsame.symm.trans hprovenance)
  · exact absurd (hlibraries ▸ hlibrary) hnew

/-- Documents bring in no module and no declaration of one. -/
lemma Complete.addDocument (h : a.Complete) (document : Source.Document) :
    (a.after (.addDocument document)).Complete := by
  have hkept : Work.Keeps (fun b => b.Homed ∧ b.libraries = a.libraries) (Call.addDocument document).work := by
    refine Work.Keeps.bind (Work.addDocument_keeps (fun d _ hsource => ?_) document) fun _ => .pure _
    refine Work.register_keeps_homed fun hprovenance => ?_
    rw [hsource] at hprovenance
    cases hprovenance
  obtain ⟨hhomed, hlibraries⟩ := hkept a ⟨h.homed, rfl⟩
  exact h.after _ hhomed fun library hlibrary hnew => absurd (hlibraries ▸ hlibrary) hnew

/-- What an import that succeeds does. -/
lemma exec_define_of_import {library : Library} (hok : ((Call.importLibrary library).work.exec a).1 = .ok ()) :
    ∃ ids, (library.module.typeDefRows.mapM (Work.define library)).exec
      { a with libraries := a.libraries ++ [library] } = (.ok ids, a.after (.importLibrary library)) := by
  have hrun : (Call.importLibrary library).work.exec a = (.ok (), a.after (.importLibrary library)) :=
    Prod.ext hok rfl
  obtain ⟨ids, b, himport, hdone⟩ := Work.exec_bind_eq_ok hrun
  obtain ⟨_, c, hadd, hrows⟩ := Work.exec_bind_eq_ok himport
  cases hadd
  cases hdone
  exact ⟨ids, hrows⟩

lemma defined_of_import {library : Library} (ha : a.graph.Indexed)
    (hok : ((Call.importLibrary library).work.exec a).1 = .ok ()) :
    ∀ row ∈ library.module.typeDefRows, (a.after (.importLibrary library)).Defined library row := by
  obtain ⟨ids, hrun⟩ := exec_define_of_import hok
  exact Work.defined_of_mapM_define (a := { a with libraries := a.libraries ++ [library] }) ha hrun

lemma libraries_of_import {library : Library} (hok : ((Call.importLibrary library).work.exec a).1 = .ok ()) :
    (a.after (.importLibrary library)).libraries = a.libraries ++ [library] := by
  obtain ⟨ids, hrun⟩ := exec_define_of_import hok
  have hkept := Work.Keeps.mapM (P := (·.libraries = a.libraries ++ [library]))
    (fun row (_ : row ∈ library.module.typeDefRows) => Work.define_keeps (fun _ _ _ hb => hb) library row)
    { a with libraries := a.libraries ++ [library] } rfl
  rwa [hrun] at hkept

lemma Complete.importLibrary (h : a.Complete) (library : Library)
    (hok : ((Call.importLibrary library).work.exec a).1 = .ok ()) :
    (a.after (.importLibrary library)).Complete := by
  let start : Atlas := { a with libraries := a.libraries ++ [library] }
  obtain ⟨ids, hrun⟩ := exec_define_of_import hok
  have hstart : start.Homed := fun hd hprovenance => List.mem_append_left _ (h.homed hd hprovenance)
  have hkept := Work.Keeps.mapM (fun row (_ : row ∈ library.module.typeDefRows) =>
    Work.define_keeps_homed (List.mem_append_right a.libraries (List.mem_singleton_self library)) row)
    start ⟨hstart, rfl⟩
  rw [hrun] at hkept
  refine h.after _ hkept.1 fun other hother hnew => ?_
  rw [libraries_of_import hok] at hother
  obtain rfl := List.mem_singleton.mp ((List.mem_append.mp hother).resolve_left hnew)
  exact defined_of_import h.indexed hok

/-- Atlases that are filled by whole documents and whole modules are complete. -/
lemma Enrolled.complete (h : a.Enrolled) : a.Complete := by
  induction h with
  | initial settings => exact .initial settings
  | enrol call _ hregisters hok ih =>
    cases call with
    | addDocument document => exact ih.addDocument document
    | importLibrary library => exact ih.importLibrary library hok
    | _ => cases hregisters
  | other call _ hsize hlibraries ih => exact ih.other call hsize hlibraries

end Atlas

end TypeAtlas
