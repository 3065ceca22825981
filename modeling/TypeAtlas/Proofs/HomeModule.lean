import TypeAtlas.Metadata.Builder
import TypeAtlas.Proofs.Indexing
import TypeAtlas.Proofs.Permanence
import TypeAtlas.Proofs.PlainNames

/-!
References from one module into another. The module of the assembly a reference points into
is its home. Main statement: a reference stands for what the definition in its home stands
for, as long as that definition is registered or nothing of its name and arity is; else it
stands for what was registered first under them, wherever that came from.
-/

namespace TypeAtlas

variable {id : DeclId}

/-- A full name is divided again where it was put together. -/
lemma Metadata.splitNamespace_qualify {ns name : String} (h : '.' ∉ name.toList) :
    splitNamespace (qualify ns name) = (ns, name) := by
  unfold splitNamespace qualify Text.cutLast
  split
  · rename_i hempty
    rw [Text.splitLast_eq_none.mpr h, String.isEmpty_iff.mp hempty]
    rfl
  · have hsplit : Text.splitLast '.' (ns ++ "." ++ name).toList = some (ns.toList, name.toList) := by
      rw [String.toList_append, String.toList_append, List.append_assoc]
      exact Text.splitLast_append h
    rw [hsplit, Option.map_some, Option.getD_some, String.ofList_toList, String.ofList_toList]

lemma Metadata.Module.typeDefName_of_findTypeDef {m : Module} {ns name : String} {row : Nat}
    (h : m.findTypeDef ns name = some row) : m.typeDefName row = .ok (ns, name) := by
  have hfound := List.find?_some h
  cases hname : m.typeDefName row with
  | error cause =>
    rw [hname] at hfound
    cases hfound
  | ok found =>
    rw [hname] at hfound
    rw [eq_of_beq hfound]

/-- The key that a stored name has at a library. -/
def Library.keyOf (library : Library) (ns raw : String) : Key :=
  ⟨qualify ns (Metadata.splitArity raw).1, (Metadata.splitArity raw).2, library.location⟩

lemma Library.markedKey_of_findTypeDef {library : Library} {ns raw : String} {row : Nat}
    (h : library.module.findTypeDef ns raw = some row) :
    library.markedKey row = .ok (library.keyOf ns raw) := by
  rw [markedKey, Metadata.Module.typeDefName_of_findTypeDef h]
  rfl

/-- A reference that has a home: the first library of its assembly defines a type of just its
stored name, which is no name of a builtin type. -/
structure Atlas.HasHome (a : Atlas) (reader : Library) (row : Nat) (home : Library)
    (ns raw : String) (definition : Nat) : Prop where
  name : reader.module.typeName (.reference row) = .ok (some (ns, raw))
  undotted : '.' ∉ raw.toList
  notBuiltin : Builtin.first? (home.keyOf ns raw).arity [(home.keyOf ns raw).fullName] = none
  leads : ∃ assembly, reader.module.referenceAssembly row = .ok assembly ∧
    a.libraries.find? (·.module.assembly == assembly) = some home
  defined : home.module.findTypeDef ns raw = some definition

namespace Graph

variable {g : Graph} {key : Key}

/-- What a key stands for: what has the key, else what was registered first under its name
and arity. -/
def registered? (g : Graph) (key : Key) : Option DeclId :=
  g.lookup key.fullName key.arity (some key.location)

/-- A key that no declaration from elsewhere goes before: it is taken, or nothing is
registered under its name and arity. -/
def Unrivalled (g : Graph) (key : Key) : Prop :=
  g.findQualified key ≠ none ∨ g.registered? key = none

lemma registered?_of_taken (h : g.findQualified key = some id) : g.registered? key = some id := by
  unfold registered? lookup
  rw [Option.bind_some, h]

lemma registered?_of_free (h : g.findQualified key = none) :
    g.registered? key = g.lookup key.fullName key.arity none := by
  unfold registered? lookup
  rw [Option.bind_some, h]
  rfl

/-- What a key stands for has its name, and its location exactly if the key is unrivalled. -/
lemma Indexed.location_iff (h : g.Indexed) {d : Declaration} (hid : g.registered? key = some id)
    (hd : g.get? id = some d) : d.fullName = key.fullName ∧ (d.location = key.location ↔ g.Unrivalled key) := by
  obtain ⟨found, hfound, hname, harity⟩ := h.get?_lookup hid
  cases hd.symm.trans hfound
  refine ⟨hname, fun hlocation => ?_, ?_⟩
  · have hkey : d.key = key := by
      rw [Declaration.key, hname, harity, hlocation]
    have htaken := (h.byKey key id).mpr ⟨d, hd, hkey⟩
    exact .inl (by simp [htaken])
  · rintro (htaken | hnone)
    · obtain ⟨other, hother⟩ := Option.ne_none_iff_exists'.mp htaken
      obtain rfl := Option.some.inj ((registered?_of_taken hother).symm.trans hid)
      obtain ⟨e, he, hkey⟩ := (h.byKey key other).mp hother
      obtain rfl := Option.some.inj (hd.symm.trans he)
      exact congrArg Key.location hkey
    · rw [hid] at hnone
      cases hnone

end Graph

namespace Work

variable {a b : Atlas} {reader home : Library} {row definition : Nat} {ns raw : String}

def usePlain (id : DeclId) : Work Use := do
  let use := Use.declared id [] none
  follow use
  return use

lemma resolveToken_definition (library : Library) (scope : Scope) (row : Nat) :
    resolveToken library scope (.definition row) = define library row >>= usePlain := by
  rw [resolveToken, tokenFinding, tokenWith]
  rfl

/-- What a stored name of an assembly at hand stands for. -/
lemma exec_external {assembly : String} (h : a.HasHome reader row home ns raw definition)
    (hhome : a.libraries.find? (·.module.assembly == assembly) = some home) (scope : Scope) :
    (external scope (qualify ns raw) assembly).exec a =
      match a.graph.registered? (home.keyOf ns raw) with
      | some id => (.ok (.declared id [] none), a)
      | none => exec (return .declared (← define home definition) [] none) a := by
  have hbuiltin := h.notBuiltin
  unfold Library.keyOf at hbuiltin
  unfold external Graph.registered? Library.keyOf
  simp only [Metadata.splitNamespace_qualify h.undotted, hbuiltin]
  rw [exec_bind, exec_get]
  simp only [hhome, Option.map_some, Option.bind_some, h.defined]
  cases a.graph.lookup (qualify ns (Metadata.splitArity raw).1) (Metadata.splitArity raw).2
      (some home.location) <;> rfl

/-- What a reference with a home stands for: what is registered under its name, else the
definition. -/
lemma exec_resolveToken_reference (h : a.HasHome reader row home ns raw definition)
    (scope : Scope) :
    (resolveToken reader scope (.reference row)).exec a =
      match a.graph.registered? (home.keyOf ns raw) with
      | some id => (usePlain id).exec a
      | none => (resolveToken home scope (.definition definition)).exec a := by
  obtain ⟨assembly, hassembly, hhome⟩ := h.leads
  have hname := h.name
  unfold Metadata.Module.typeName at hname
  obtain ⟨ref, href, hname⟩ := bind_eq_ok hname
  obtain ⟨ns', hns, hname⟩ := bind_eq_ok hname
  obtain ⟨raw', hraw, hname⟩ := bind_eq_ok hname
  cases hname
  rw [resolveToken_definition, resolveToken, tokenFinding, tokenWith]
  simp only [href, hns, hraw, hassembly, exec_bind, exec_check_ok, exec_settle_ok,
    exec_external h hhome]
  cases a.graph.registered? (home.keyOf ns raw) with
  | some id =>
    dsimp only
    rw [usePlain, exec_bind]
  | none =>
    dsimp only
    cases (define home definition).exec a with
    | mk r b =>
      cases r with
      | error fault => rfl
      | ok id =>
        dsimp only
        rw [usePlain, exec_bind]
        rfl

lemma exec_resolveToken_definition (h : a.HasHome reader row home ns raw definition)
    (hkey : a.graph.findQualified (home.keyOf ns raw) = some id) (scope : Scope) :
    (resolveToken home scope (.definition definition)).exec a = (usePlain id).exec a := by
  rw [resolveToken_definition, exec_bind, exec_define, Library.markedKey_of_findTypeDef h.defined]
  dsimp only
  rw [hkey]

lemma follow_keeps_lasts (a : Atlas) (use : Use) : Keeps a.Lasts (follow use) :=
  followWith_keeps (load_keeps_lasts a) use

/-- Where a use was returned, it is of the declaration, which is still the same. -/
lemma exec_usePlain_eq_ok {d : Declaration} {use : Use} (hd : a.graph.get? id = some d)
    (hrun : (usePlain id).exec a = (.ok use, b)) :
    use = .declared id [] none ∧ ∃ e, b.graph.get? id = some e ∧ e.key = d.key := by
  rw [usePlain, exec_bind] at hrun
  have hlasts := follow_keeps_lasts a (.declared id [] none) a (.refl a)
  cases hfollow : (follow (.declared id [] none)).exec a with
  | mk r c =>
    rw [hfollow] at hrun hlasts
    cases r with
    | error fault => cases hrun
    | ok _ =>
      cases hrun
      obtain ⟨e, he, hbecomes, -⟩ := hlasts id d hd
      exact ⟨rfl, e, he, by rw [hbecomes.header]; rfl⟩

lemma exec_usePlain_of_lazy (hlazy : a.settings.loadPolicy = .lazy) (id : DeclId) :
    (usePlain id).exec a = (.ok (.declared id [] none), a) := by
  rw [usePlain, exec_bind, exec_follow_of_lazy hlazy]
  rfl

end Work

namespace Atlas

variable {a : Atlas} {reader home : Library} {row definition : Nat} {ns raw : String}

/-- A use that a reference is resolved to is of a declaration of its name, which stands at
home exactly if the key there is unrivalled. -/
lemma get?_of_resolveToken (ha : a.graph.Indexed)
    (h : a.HasHome reader row home ns raw definition) {scope : Scope} {use : Use} {b : Atlas}
    (hrun : (Work.resolveToken reader scope (.reference row)).exec a = (.ok use, b)) :
    ∃ id d, use = .declared id [] none ∧ b.graph.get? id = some d ∧
      d.fullName = (home.keyOf ns raw).fullName ∧
      (d.location = home.location ↔ a.graph.Unrivalled (home.keyOf ns raw)) := by
  rw [Work.exec_resolveToken_reference h] at hrun
  cases hregistered : a.graph.registered? (home.keyOf ns raw) with
  | some id =>
    rw [hregistered] at hrun
    obtain ⟨d, hd, -, -⟩ := ha.get?_lookup hregistered
    obtain ⟨hname, hlocation⟩ := ha.location_iff hregistered hd
    obtain ⟨huse, e, he, hkey⟩ := Work.exec_usePlain_eq_ok hd hrun
    refine ⟨id, e, huse, he, (congrArg Key.fullName hkey).trans hname, ?_⟩
    rw [← hlocation, show e.location = d.location from congrArg Key.location hkey]
    rfl
  | none =>
    rw [hregistered] at hrun
    dsimp only at hrun
    rw [Work.resolveToken_definition, Work.exec_bind] at hrun
    cases hdefine : (Work.define home definition).exec a with
    | mk r c =>
      rw [hdefine] at hrun
      cases r with
      | error fault => cases hrun
      | ok id =>
        have hmarked := Library.markedKey_of_findTypeDef h.defined
        obtain ⟨d, hd, hname, hlocation⟩ := Work.get?_define ha hmarked hdefine
        obtain ⟨huse, e, he, hkey⟩ := Work.exec_usePlain_eq_ok hd hrun
        refine ⟨id, e, huse, he, (congrArg Key.fullName hkey).trans hname, ?_⟩
        exact iff_of_true ((congrArg Key.location hkey).trans hlocation) (.inr hregistered)

/-- Without loads a reference is resolved unless nothing is registered and the definition
cannot be read. -/
lemma resolveToken_isOk_iff (h : a.HasHome reader row home ns raw definition)
    (hlazy : a.settings.loadPolicy = .lazy) (scope : Scope) :
    (∃ use b, (Work.resolveToken reader scope (.reference row)).exec a = (.ok use, b)) ↔
      a.graph.registered? (home.keyOf ns raw) ≠ none ∨
        ∃ d, Declaration.ofDefinition none home definition = .ok d := by
  rw [Work.exec_resolveToken_reference h]
  cases hregistered : a.graph.registered? (home.keyOf ns raw) with
  | some id =>
    exact iff_of_true ⟨_, _, Work.exec_usePlain_of_lazy hlazy id⟩ (.inl (by simp))
  | none =>
    have hfree : a.graph.findQualified (home.keyOf ns raw) = none := by
      by_contra htaken
      obtain ⟨id, hid⟩ := Option.ne_none_iff_exists'.mp htaken
      rw [Graph.registered?_of_taken hid] at hregistered
      cases hregistered
    dsimp only
    rw [Work.resolveToken_definition, Work.exec_bind, Work.exec_define,
      Library.markedKey_of_findTypeDef h.defined]
    dsimp only
    rw [hfree]
    dsimp only
    cases Declaration.ofDefinition none home definition with
    | error cause => simp
    | ok d =>
      have hlazy' : ({ a with graph := (a.graph.add d).2 } : Atlas).settings.loadPolicy = .lazy := hlazy
      exact iff_of_true ⟨_, _, Work.exec_usePlain_of_lazy hlazy' _⟩ (.inr ⟨d, rfl⟩)

/-- A reference that has a home. If the key at home is unrivalled, it is resolved just as the
token of the definition is, in outcome and effect. If not, the use is of what was registered
first under the name and arity. The declaration used stands at home exactly in the first
case. Under the lazy policy there is one exactly if something of the name and arity is
registered or the definition can be made a declaration. -/
theorem reference_resolves_home (ha : a.graph.Indexed)
    (h : a.HasHome reader row home ns raw definition) (scope : Scope) :
    (a.graph.Unrivalled (home.keyOf ns raw) →
      (Work.resolveToken reader scope (.reference row)).exec a =
        (Work.resolveToken home scope (.definition definition)).exec a) ∧
    (¬ a.graph.Unrivalled (home.keyOf ns raw) →
      ∃ id, a.graph.lookup (home.keyOf ns raw).fullName (home.keyOf ns raw).arity none = some id ∧
        (Work.resolveToken reader scope (.reference row)).exec a = (Work.usePlain id).exec a) ∧
    (∀ use b, (Work.resolveToken reader scope (.reference row)).exec a = (.ok use, b) →
      ∃ id d, use = .declared id [] none ∧ b.graph.get? id = some d ∧
        d.fullName = (home.keyOf ns raw).fullName ∧
        (d.location = home.location ↔ a.graph.Unrivalled (home.keyOf ns raw))) ∧
    (a.settings.loadPolicy = .lazy →
      ((∃ use b, (Work.resolveToken reader scope (.reference row)).exec a = (.ok use, b)) ↔
        a.graph.registered? (home.keyOf ns raw) ≠ none ∨
          ∃ d, Declaration.ofDefinition none home definition = .ok d)) := by
  have hreference := Work.exec_resolveToken_reference h scope
  refine ⟨?_, ?_, ?_, ?_⟩
  · rintro (htaken | hnone)
    · obtain ⟨id, hid⟩ := Option.ne_none_iff_exists'.mp htaken
      rw [hreference, Graph.registered?_of_taken hid, Work.exec_resolveToken_definition h hid]
    · rw [hreference, hnone]
  · intro hrivalled
    obtain ⟨hfree, hsome⟩ := not_or.mp hrivalled
    obtain ⟨id, hid⟩ := Option.ne_none_iff_exists'.mp hsome
    refine ⟨id, ?_, ?_⟩
    · rwa [← Graph.registered?_of_free (not_not.mp hfree)]
    · rw [hreference, hid]
  · intro use b hrun
    exact get?_of_resolveToken ha h hrun
  · intro hlazy
    exact resolveToken_isOk_iff h hlazy scope

lemma libraries_after_addLibrary (a : Atlas) (library : Library) :
    (a.after (.addLibrary library)).libraries = a.libraries ++ [library] := rfl

lemma settings_after_addLibrary (a : Atlas) (library : Library) :
    (a.after (.addLibrary library)).settings = a.settings := rfl

def parts : Library where
  module := ((do
    let _ ← Metadata.Builder.defineType 1 "Parts" "Wheel" none : Metadata.Build Unit).run.run
      (Metadata.Builder.ofAssembly "Parts")).2.module
  location := "parts.dll"

/-- A module with a type whose base is in the other module. -/
def cars : Library where
  module := ((do
    let wheel ← Metadata.Builder.externalType "Parts" "Parts" "Wheel"
    let _ ← Metadata.Builder.defineType 1 "Cars" "SpareWheel" (some wheel) : Metadata.Build Unit).run.run
      (Metadata.Builder.ofAssembly "Cars")).2.module
  location := "cars.dll"

/-- The place that refers to the base. -/
def spareWheel : Scope := { requester := "Cars.SpareWheel", location := "cars.dll" }

lemma hasHome_cars {a : Atlas} (ha : a.libraries = [parts]) :
    a.HasHome cars 1 parts "Parts" "Wheel" 1 where
  name := by with_unfolding_all rfl
  undotted := by decide
  notBuiltin := by decide +kernel
  leads := ⟨"Parts", by with_unfolding_all rfl, by rw [ha]; rfl⟩
  defined := by decide +kernel

/-- Without a declaration of the same name the base is the type in the other module. -/
theorem reference_resolves_home_cars :
    let a := ({} : Atlas).after (.addLibrary parts)
    a.HasHome cars 1 parts "Parts" "Wheel" 1 ∧ a.graph.Unrivalled (parts.keyOf "Parts" "Wheel") ∧
      ∃ id d b, (Work.resolveToken cars spareWheel (.reference 1)).exec a =
          (.ok (.declared id [] none), b) ∧
        b.graph.get? id = some d ∧ d.fullName = "Parts.Wheel" ∧ d.location = parts.location := by
  intro a
  have hhome : a.HasHome cars 1 parts "Parts" "Wheel" 1 := hasHome_cars rfl
  have hunrivalled : a.graph.Unrivalled (parts.keyOf "Parts" "Wheel") := .inr (by decide +kernel)
  have hread : (Declaration.ofDefinition none parts 1).isOk = true := by
    decide +kernel
  have hdefined : ∃ d, Declaration.ofDefinition none parts 1 = .ok d := by
    cases hd : Declaration.ofDefinition none parts 1 with
    | ok d => exact ⟨d, rfl⟩
    | error cause =>
      rw [hd] at hread
      cases hread
  obtain ⟨-, -, hused, hok⟩ :=
    reference_resolves_home (indexed_afterAll {} [.addLibrary parts]) hhome spareWheel
  obtain ⟨use, b, hrun⟩ := (hok rfl).mpr (.inr hdefined)
  obtain ⟨id, d, rfl, hd, hname, hlocation⟩ := hused use b hrun
  exact ⟨hhome, hunrivalled, id, d, b, hrun, hd, hname, hlocation.mpr hunrivalled⟩

/-- Source that declares the name of the type in the module. -/
def ownParts : Source.Document := .read "parts.cs" "namespace Parts \x7b class Wheel \x7b \x7d \x7d"

/-- With such source the base is taken from there. -/
theorem reference_leaves_home :
    ∃ a d, a = (ofDocuments {} [ownParts] .lazy).after (.addLibrary parts) ∧
      a.HasHome cars 1 parts "Parts" "Wheel" 1 ∧
      (Work.resolveToken cars spareWheel (.reference 1)).exec a = (.ok (.declared 0 [] none), a) ∧
      a.graph.get? 0 = some d ∧ d.location = "parts.cs" ∧ d.location ≠ parts.location := by
  have hregistered : ((ofDocuments {} [ownParts] .lazy).after (.addLibrary parts)).graph.registered?
      (parts.keyOf "Parts" "Wheel") = some 0 := by
    decide +kernel
  have hlocation : (((ofDocuments {} [ownParts] .lazy).after (.addLibrary parts)).graph.get? 0).map
      (·.location) = some "parts.cs" := by
    decide +kernel
  obtain ⟨d, hd, hlocation⟩ := Option.map_eq_some_iff.mp hlocation
  obtain ⟨a, ha⟩ : ∃ a, a = (ofDocuments {} [ownParts] .lazy).after (.addLibrary parts) := ⟨_, rfl⟩
  have hlibraries : a.libraries = [parts] := by
    rw [ha, libraries_after_addLibrary, libraries_ofDocuments]
    rfl
  have hlazy : a.settings.loadPolicy = .lazy := by
    rw [ha, settings_after_addLibrary, loadPolicy_ofDocuments]
  rw [← ha] at hregistered hd
  have hhome := hasHome_cars hlibraries
  refine ⟨a, d, ha, hhome, ?_, hd, hlocation, ?_⟩
  · rw [Work.exec_resolveToken_reference hhome, hregistered]
    exact Work.exec_usePlain_of_lazy hlazy 0
  · rw [hlocation]
    decide

end Atlas

end TypeAtlas
