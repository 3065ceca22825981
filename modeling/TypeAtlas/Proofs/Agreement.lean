import TypeAtlas.Proofs.Enrolment
import TypeAtlas.Proofs.Layout
import TypeAtlas.Proofs.Relocation
import TypeAtlas.Proofs.StoredShape
import TypeAtlas.Proofs.WrittenShape

/-!
Source and modules agree. A plan can be written as a text and built into a module; registered
from either and loaded in any order, each of its declarations gets the profile that is planned
for it, and so the same from both.
-/

namespace TypeAtlas

open Work

variable {plan : Plan}

/-! Declarations in source. -/

section Source

open Source Source.Reader

/-- What is found of a planned declaration: it stands in its namespace and sees no using
directives. -/
def PlanDecl.FoundAs (decls : List PlanDecl) (d : PlanDecl) (placed : Placed) : Prop :=
  placed.ns = d.ns ∧ placed.usings = [] ∧ d.ReadAs decls placed.tree

lemma found_placed {decls ds : List PlanDecl} {found : List Item}
    (h : List.Forall₂ (PlanDecl.PlacedAs decls) ds found) :
    usingsOf found = [] ∧ List.Forall₂ (PlanDecl.FoundAs decls) ds (placeItems "" [] found) := by
  induction h with
  | nil => exact ⟨rfl, .nil⟩
  | cons hfirst _ ih =>
    obtain ⟨tree, hread, rfl⟩ := hfirst
    exact ⟨ih.1, .cons ⟨rfl, rfl, hread⟩ ih.2⟩

lemma Plan.found {text : String} (htext : Spells plan.spelling text.toList) (path : String) :
    List.Forall₂ (PlanDecl.FoundAs plan.decls) plan.decls (Document.read path text).declarations := by
  obtain ⟨found, hitems, hplaced⟩ := plan.read htext path
  obtain ⟨husings, hfound⟩ := found_placed hplaced
  rw [Document.declarations, hitems, Option.getD_some, husings]
  exact hfound

lemma PlanDecl.FoundAs.enters {path text : String} {placed : Placed} {d : PlanDecl}
    (h : d.FoundAs plan.decls placed) (hd : d ∈ plan.decls)
    (hplaced : placed ∈ (Document.read path text).declarations) (implicitUsings : List String) :
    plan.Enters path d (placed.declaration implicitUsings (.read path text)) := by
  obtain ⟨hns, -, hread⟩ := h
  refine ⟨hread.kind, hns, hread.name, ?_, rfl, ⟨rfl, rfl⟩, fun hknown => ?_⟩
  · change placed.tree.typeParams.length = d.arity
    rw [hread.typeParams, PlanDecl.typeParams, List.length_map, PlanDecl.arity]
  · change Yields _ (sourceShape _ (placed.declaration implicitUsings (.read path text))) _
    rw [(placed.madeFrom_declaration hplaced implicitUsings).sourceShape_eq]
    exact hread.writtenShape_yields hknown hd _ rfl rfl

/-- The declarations of a text are registered in order. -/
lemma Plan.addDocument_enters {text : String} (htext : Spells plan.spelling text.toList) (path : String)
    (settings : Settings) :
    ∃ es a, (addDocument (.read path text)).exec { settings } = (.ok (List.range plan.decls.length), a) ∧
      List.Forall₂ (plan.Enters path) plan.decls es ∧ a.graph.Lists es := by
  obtain ⟨es, hplaced, hes⟩ := forall₂_through (plan.found htext path).flip (A := fun placed e =>
      Declaration.ofPlaced settings.implicitUsings (.read path text) placed = .ok e) (B := plan.Enters path)
    fun placed hplaced d hd h => ⟨_, ofPlaced_eq hplaced _, PlanDecl.FoundAs.enters h hd hplaced _⟩
  have hregister : List.Forall₂ (fun placed e => ∀ g : Graph, g.findQualified e.key = none →
      (do register (← check (Declaration.ofPlaced (← get).settings.implicitUsings (.read path text) placed))).exec
        { settings, graph := g } = (.ok (g.add e).1, { settings, graph := (g.add e).2 }))
      (Document.read path text).declarations es := by
    refine hplaced.imp fun placed e he g _ => ?_
    simp only [exec_bind, exec_get, he, exec_check_ok, exec_register]
  obtain ⟨g, hrun, hg⟩ := mapM_registers (a := { settings }) hregister .initial (Plan.nodup_keys hes)
  refine ⟨es, { settings, graph := g }, ?_, hes, hg⟩
  rw [hes.length_eq, List.range_eq_range']
  exact hrun

end Source

/-! Declarations in a module. -/

section Module

variable {d : PlanDecl} {place : Nat}

open Metadata

variable {x : Externals} {m : Module}

/-- A definition is looked for by its name and the number it is marked with. -/
lemma Metadata.Module.Titled.markedKey_eq {decls : List PlanDecl} (h : m.Titled decls) (location : String)
    (hd : decls[place]? = some d) :
    Library.markedKey ⟨m, location⟩ (place + 1) = .ok ⟨d.fullName, d.arity, location⟩ := by
  obtain ⟨raw, hname, harity⟩ := h.name hd
  unfold Library.markedKey
  simp only [bind, Except.bind, hname, harity]
  rfl

/-- What is registered for a definition of a planned declaration. -/
def PlanDecl.stored (d : PlanDecl) (library : Library) (row : Nat) : Declaration where
  kind := d.kind
  ns := d.ns
  name := d.name
  location := library.location
  arity := d.arity
  usings := []
  handle := .synthesized (.typeNode d.kind.node) (Declaration.definitionText d.kind d.name d.typeParams)
  provenance := .module library.module row

namespace Plan.StoredIn

lemma ofDefinition_eq (h : plan.StoredIn x m) (location : String)
    (hd : plan.decls[place]? = some d) :
    Declaration.ofDefinition none ⟨m, location⟩ (place + 1) = .ok (d.stored ⟨m, location⟩ (place + 1)) := by
  have hnames := genericNames (h.types place d hd).generics (fits_at hd).generics
  have hlength : (d.generics.map PlanParam.name).length = d.arity := List.length_map ..
  unfold Declaration.ofDefinition
  simp only [bind, Except.bind, h.kindOf hd, h.typeDefName hd, (fits_at hd).splitArity, hnames, hlength]
  rfl

lemma enters (h : plan.StoredIn x m) (location : String)
    (hd : plan.decls[place]? = some d) : plan.Enters location d (d.stored ⟨m, location⟩ (place + 1)) :=
  ⟨rfl, rfl, rfl, rfl, rfl, ⟨rfl, rfl⟩, fun hknown => h.storedShape_yields hknown hd rfl⟩

/-- The definitions of a module are registered in order. -/
lemma importLibrary_enters (h : plan.StoredIn x m) (location : String) (settings : Settings) :
    ∃ es a, (importLibrary ⟨m, location⟩).exec { settings } = (.ok (List.range plan.decls.length), a) ∧
      List.Forall₂ (plan.Enters location) plan.decls es ∧ a.graph.Lists es := by
  have hrows : List.Forall₂ (fun row d => ∃ place, row = place + 1 ∧ plan.decls[place]? = some d)
      m.typeDefRows plan.decls := by
    refine List.forall₂_iff_get.mpr ⟨?_, fun i hi hd => ⟨i, ?_, List.getElem?_eq_getElem hd⟩⟩
    · rw [Module.typeDefRows, List.length_range', h.count]
    · simp [Module.typeDefRows, Nat.add_comm]
  obtain ⟨es, hdefined, hes⟩ := forall₂_through hrows (A := fun row e => ∀ g : Graph, g.findQualified e.key = none →
      (define ⟨m, location⟩ row).exec { settings, graph := g, libraries := [⟨m, location⟩] } =
        (.ok (g.add e).1, { settings, graph := (g.add e).2, libraries := [⟨m, location⟩] })) (B := plan.Enters location)
    fun row _ d _ hrow => by
      obtain ⟨place, rfl, hd⟩ := hrow
      refine ⟨_, fun g hfree => ?_, h.enters location hd⟩
      rw [(h.enters location hd).key] at hfree
      simp only [exec_define, h.titled.markedKey_eq location hd, hfree, h.ofDefinition_eq location hd]
  obtain ⟨g, hrun, hg⟩ := mapM_registers (a := { settings, libraries := [⟨m, location⟩] }) hdefined .initial
    (Plan.nodup_keys hes)
  refine ⟨es, { settings, graph := g, libraries := [⟨m, location⟩] }, ?_, hes, hg⟩
  rw [hes.length_eq, List.range_eq_range', importLibrary, exec_bind]
  exact hrun

end Plan.StoredIn

end Module

/-! Both. -/

lemma exec_registerThenLoad {w : Work (List DeclId)} {ids order : List DeclId} {a b c : Atlas}
    (hregister : w.exec a = (.ok ids, b)) (hload : (order.forM load).exec b = (.ok (), c)) :
    (do let ids ← w; order.forM load; return ids).exec a = (.ok ids, c) := by
  rw [exec_bind, hregister]
  dsimp only
  rw [exec_bind, hload]
  rfl

/-- A plan is registered from any text that spells it and from the module that is built from it;
both number its declarations in order. Loading all of them succeeds in any order and under any
settings, and gives each declaration the kind, the name and the shape that are planned for it. -/
theorem Plan.source_and_module_load_alike (plan : Plan) {text : String}
    (htext : Source.Spells plan.spelling text.toList) {assembly : String} {built : Metadata.Builder}
    (hbuilt : Metadata.Builder.run plan.build (.ofAssembly assembly) = (.ok (), built)) (path location : String)
    (settings settings' : Settings) {order order' : List DeclId}
    (horder : ∀ id, id ∈ order ↔ id < plan.decls.length)
    (horder' : ∀ id, id ∈ order' ↔ id < plan.decls.length) :
    ∃ written stored : Atlas,
      (do let ids ← addDocument (.read path text); order.forM load; return ids).exec { settings } =
        (.ok (List.range plan.decls.length), written) ∧
      (do let ids ← importLibrary ⟨built.module, location⟩; order'.forM load; return ids).exec
          { settings := settings' } = (.ok (List.range plan.decls.length), stored) ∧
      ∀ place, (written.graph.get? place).map Declaration.profile = plan.decls[place]?.map plan.profile ∧
        (stored.graph.get? place).map Declaration.profile = plan.decls[place]?.map plan.profile := by
  obtain ⟨x, hstored⟩ := plan.build_spec hbuilt
  obtain ⟨es, a, haddDocument, hes, ha⟩ := plan.addDocument_enters htext path settings
  obtain ⟨es', a', himportLibrary, hes', ha'⟩ := hstored.importLibrary_enters location settings'
  obtain ⟨written, hload, hwritten⟩ := Plan.loads hes ha horder
  obtain ⟨stored, hload', hstored'⟩ := Plan.loads hes' ha' horder'
  exact ⟨written, stored, exec_registerThenLoad haddDocument hload, exec_registerThenLoad himportLibrary hload',
    fun place => ⟨hwritten place, hstored' place⟩⟩

/-- An interface whose parameter is constrained, and a class that extends it and has a nullable
property and a generic method on arrays. -/
def market : Plan where
  decls :=
    [ { kind := .interfaceType, spaces := ["Shop"], name := "Stock"
        generics := [⟨"T", [.declared 1 []]⟩], bases := []
        members := [.property "Best" (.param .type 0) true false] },
      { kind := .classType, spaces := ["Shop", "Goods"], name := "Item", generics := []
        bases := [.declared 0 [.declared 1 []]]
        members :=
          [ .property "Price" (.nullable .int) true true,
            .method "Match" [⟨"K", [.declared 1 []]⟩] (.array (.array (.declared 1 []) 1) 2)
              [("key", .param .method 0), ("limits", .array (.builtin .decimal) 1)] ] } ]
  fits := by decide +kernel
  keys := by decide +kernel
  count := by decide

/-- The source of the market. -/
def marketText : String :=
  "namespace Shop \x7b interface Stock<T> where T : Shop.Goods.Item \x7b T Best \x7b get; \x7d \x7d \x7d
namespace Shop.Goods \x7b
  class Item : Shop.Stock<Shop.Goods.Item> \x7b
    int? Price \x7b get; set; \x7d
    Shop.Goods.Item[,][] Match<K>(K key, decimal[] limits) where K : Shop.Goods.Item;
  \x7d
\x7d
"

def marketModule : Metadata.Builder := (Metadata.Builder.run market.build (.ofAssembly "Market")).2

set_option maxRecDepth 8000 in
lemma spells_marketText : Source.Spells market.spelling marketText.toList :=
  Source.spells_ofList (by decide +kernel)

lemma run_market : Metadata.Builder.run market.build (.ofAssembly "Market") = (.ok (), marketModule) := by
  have hok : (Metadata.Builder.run market.build (.ofAssembly "Market")).1.toBool = true := by decide +kernel
  refine Prod.ext ?_ rfl
  cases hrun : (Metadata.Builder.run market.build (.ofAssembly "Market")).1 with
  | error cause =>
    rw [hrun] at hok
    cases hok
  | ok result => rfl

theorem Plan.source_and_module_load_alike_market :
    Source.Spells market.spelling marketText.toList ∧
      Metadata.Builder.run market.build (.ofAssembly "Market") = (.ok (), marketModule) ∧
      ∃ written stored : Atlas,
        (do let ids ← addDocument (.read "market.cs" marketText); [1, 0].forM load; return ids).exec {} =
          (.ok [0, 1], written) ∧
        (do let ids ← importLibrary ⟨marketModule.module, "market.dll"⟩; [0, 1].forM load; return ids).exec
            { settings := { loadPolicy := .onResolve } } = (.ok [0, 1], stored) ∧
        ∀ place, (written.graph.get? place).map Declaration.profile = market.decls[place]?.map market.profile ∧
          (stored.graph.get? place).map Declaration.profile = market.decls[place]?.map market.profile := by
  have horder : ∀ id, id ∈ [1, 0] ↔ id < market.decls.length := by
    intro id
    change id ∈ [1, 0] ↔ id < 2
    simp
    omega
  have horder' : ∀ id, id ∈ [0, 1] ↔ id < market.decls.length := by
    intro id
    change id ∈ [0, 1] ↔ id < 2
    simp
    omega
  exact ⟨spells_marketText, run_market, market.source_and_module_load_alike spells_marketText run_market
    "market.cs" "market.dll" {} { loadPolicy := .onResolve } horder horder'⟩

end TypeAtlas
