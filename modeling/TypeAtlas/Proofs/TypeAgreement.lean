import TypeAtlas.Proofs.Agreement
import TypeAtlas.Proofs.AnyOrder
import TypeAtlas.Proofs.ReferenceReading

/-!
Types that are written and types that are compiled. Main statement: in an atlas that a module was
imported into, the text that spells a type and the signature that is compiled from it are resolved
to one use, whatever calls were made before and after the import.
-/

namespace TypeAtlas

open Metadata Source Work

/-- A module whose definitions have plain names in namespaces other than `System`, each marked with
the number of its generic parameters. -/
structure Metadata.Module.Nameable (m : Module) (decls : List PlanDecl) : Prop extends m.Titled decls where
  plain : ∀ d ∈ decls, d.spaces ≠ [] ∧ (∀ part ∈ d.spaces, isPlainName part = true) ∧ isPlainName d.name = true
  generics : ∀ {place d}, decls[place]? = some d → (m.genericParamsOf (.type (place + 1))).length = d.arity

/-- The module that is built from a plan is one of them. -/
lemma Plan.StoredIn.nameable {plan : Plan} {x : Externals} {m : Module} (h : plan.StoredIn x m) :
    m.Nameable plan.decls where
  toTitled := h.titled
  plain := by
    intro d hd
    have hfits := plan.fits d hd
    exact ⟨hfits.spaces.1, hfits.spaces.2.2, hfits.name⟩
  generics := by
    intro place d hd
    obtain ⟨start, hrows, -⟩ := (h.types place d hd).generics
    rw [hrows, List.length_range']
    rfl

namespace Atlas

variable {decls : List PlanDecl} {library : Library} {settings : Settings} {before : List Call}

/-- A definition that is registered stands under its name and the number of its parameters. -/
lemma Defined.findQualified {a : Atlas} (hmodule : library.module.Nameable decls) {place : Nat} {d : PlanDecl}
    (hd : decls[place]? = some d) (h : a.Defined library (place + 1)) :
    ∃ id, a.graph.findQualified ⟨d.fullName, d.arity, library.location⟩ = some id := by
  obtain ⟨key, id, hid, hkey⟩ := h
  obtain ⟨raw, hname, harity⟩ := hmodule.name hd
  rcases hkey with hmarked | ⟨e, he, rfl⟩
  · have hown := hmodule.markedKey_eq library.location hd
    cases hmarked.symm.trans hown
    exact ⟨id, hid⟩
  · obtain ⟨kind, ns, found, names, -, hfound, hnames, rfl⟩ := Declaration.ofDefinition_eq_ok he
    cases hfound.symm.trans hname
    have hlength : names.length = d.arity := (Module.length_genericNames hnames).trans (hmodule.generics hd)
    refine ⟨id, ?_⟩
    rw [← hid, Declaration.key, Declaration.fullName]
    dsimp only
    rw [harity, hlength]
    rfl

lemma defined_after_import (after : List Call)
    (hok : ((Call.importLibrary library).work.exec (({ settings } : Atlas).afterAll before)).1 = .ok ()) {row : Nat}
    (hrow : row ∈ library.module.typeDefRows) :
    (({ settings } : Atlas).afterAll (before ++ .importLibrary library :: after)).Defined library row := by
  have hindexed := indexed_afterAll settings before
  have hdefined := defined_of_import hindexed hok row hrow
  have hlater := indexed_afterAll settings (before ++ .importLibrary library :: after)
  rw [afterAll, List.foldl_append, List.foldl_cons] at hlater ⊢
  refine hdefined.lasts ?_ ((Call.importLibrary library).keeps_indexed _ hindexed) hlater
  exact afterAll_induction (fun call _ => call.keeps_lasts _) (.refl _)

/-- After the import of a module its definitions are known under the names of its types, and the
lazy policy does not go on from there. -/
lemma known_after_import (hmodule : library.module.Nameable decls) (hlazy : settings.loadPolicy = .lazy)
    (after : List Call)
    (hok : ((Call.importLibrary library).work.exec (({ settings } : Atlas).afterAll before)).1 = .ok ()) :
    ∃ ids, PlanDecl.Known decls library.location ids
      (· = ({ settings } : Atlas).afterAll (before ++ .importLibrary library :: after)) follow := by
  have hid : ∀ place : Nat, ∃ id, ∀ d : PlanDecl, decls[place]? = some d →
      (({ settings } : Atlas).afterAll (before ++ .importLibrary library :: after)).graph.findQualified
        ⟨d.fullName, d.arity, library.location⟩ = some id := by
    intro place
    cases hd : decls[place]? with
    | none => exact ⟨0, nofun⟩
    | some d =>
      have hrow := Library.mem_typeDefRows (hmodule.markedKey_eq library.location hd)
      obtain ⟨id, hid⟩ := (defined_after_import after hok hrow).findQualified hmodule hd
      refine ⟨id, fun e he => ?_⟩
      rw [← Option.some.inj he]
      exact hid
  choose ids hids using hid
  refine ⟨ids, fun ha hd => ha ▸ hids _ _ hd, fun use _ a ha => ⟨(), a, ?_, ha, trivial⟩⟩
  apply exec_follow_of_lazy
  rw [ha, settings_afterAll]
  exact hlazy

end Atlas

/-- What types can refer to in a scope of a module. -/
def Scope.planned (scope : Scope) (decls : List PlanDecl) : PlanScope :=
  ⟨decls.map PlanDecl.arity, scope.typeParams, scope.methodParams⟩

/-- In an atlas that a module was imported into, a type is spelled by a text and compiled into a
signature. The reference that is parsed from the text and the signature are both resolved, and
both to the use that has the registered types in place of their names. Nothing is registered or
loaded on the way. The calls before and after the import may be any, and they may fail. -/
theorem Atlas.written_and_compiled_types_resolve_alike (library : Library) {decls : List PlanDecl} {x : Externals}
    (hmodule : library.module.Nameable decls) (hx : x.NamedIn library.module) (settings : Settings)
    (hlazy : settings.loadPolicy = .lazy) (before after : List Call)
    (hok : ((Call.importLibrary library).work.exec (({ settings } : Atlas).afterAll before)).1 = .ok ())
    (scope : Scope) (hlocation : scope.location = library.location)
    (hdistinct : scope.typeParams.Nodup ∧ scope.methodParams.Nodup)
    (hplain : ∀ name ∈ scope.typeParams ++ scope.methodParams, isPlainName name = true)
    (type : PlanType) (hscoped : type.inScope (scope.planned decls) = true) (kinds : List Kind) (text : String)
    (htext : Spells (type.spelling decls (scope.planned decls)) text.toList) (a : Atlas)
    (ha : a = ({ settings } : Atlas).afterAll (before ++ .importLibrary library :: after)) :
    ∃ (ids : Nat → DeclId) (ref : TypeRef),
      (∀ place d, decls[place]? = some d →
        a.graph.findQualified ⟨d.fullName, d.arity, library.location⟩ = some (ids place)) ∧
      TypeRef.parse text = .ok ref ∧
      (resolve scope ref).exec a = (.ok (type.use ids (scope.planned decls)), a) ∧
      (resolveSignature library scope (type.sig x kinds)).exec a = (.ok (type.use ids (scope.planned decls)), a) := by
  obtain ⟨ids, hknown⟩ := known_after_import hmodule hlazy after hok
  rw [← ha] at hknown
  have hnamed : (scope.planned decls).Named decls :=
    ⟨rfl, hmodule.plain, fun name hname => hplain name (List.mem_append_left _ hname),
      fun name hname => hplain name (List.mem_append_right _ hname)⟩
  have hwritten : (scope.planned decls).Written decls library.location scope :=
    ⟨⟨rfl, rfl⟩, hnamed, hlocation, hdistinct⟩
  have hparse := (PlanType.readsAs hnamed hscoped).parse_spelling htext
  obtain ⟨ref, href, hresolve⟩ := tree_yields TypeRef.referencePath hknown hwritten hscoped
  have hsignature := signatureFinding_yields hmodule.toTitled hx kinds hknown rfl hwritten.toSeen hscoped
  obtain ⟨_, _, hresolved, rfl, rfl⟩ := hresolve a rfl
  obtain ⟨_, _, hcompiled, rfl, rfl⟩ := hsignature _ rfl
  exact ⟨ids, ref, fun place d hd => hknown.registered rfl hd, hparse.trans href, hresolved, hcompiled⟩

def marketScope : Scope where
  requester := "Shop.Stock"
  location := "market.dll"
  ns := "Shop"
  typeParams := ["T"]
  methodParams := ["K"]

/-- Arrays of arrays of stocks of stocks of arrays of numbers that may be missing. -/
def marketType : PlanType := .array (.array (.declared 0 [.declared 0 [.array (.nullable .decimal) 3]]) 1) 2

theorem Atlas.written_and_compiled_types_resolve_alike_market :
    let library : Library := ⟨marketModule.module, "market.dll"⟩
    let s := marketScope.planned market.decls
    let a := ({} : Atlas).afterAll [.load 0, .importLibrary library, .load 0]
    marketType.inScope s = true ∧
      Spells (marketType.spelling market.decls s) "Shop.Stock<Shop.Stock<decimal?[,,]> >[,][]".toList ∧
      ∃ x : Externals, x.NamedIn library.module ∧ ∃ (ids : Nat → DeclId) (ref : TypeRef),
        (∀ place d, market.decls[place]? = some d →
          a.graph.findQualified ⟨d.fullName, d.arity, "market.dll"⟩ = some (ids place)) ∧
        TypeRef.parse "Shop.Stock<Shop.Stock<decimal?[,,]> >[,][]" = .ok ref ∧
        (resolve marketScope ref).exec a = (.ok (marketType.use ids s), a) ∧
        (resolveSignature library marketScope (marketType.sig x market.kinds)).exec a =
          (.ok (marketType.use ids s), a) := by
  intro library s a
  obtain ⟨x, hstored⟩ := market.build_spec run_market
  have hscoped : marketType.inScope s = true := by decide
  have htext : Spells (marketType.spelling market.decls s) "Shop.Stock<Shop.Stock<decimal?[,,]> >[,][]".toList :=
    spells_of_isSpelledBy (by decide +kernel)
  have hplain : ∀ name ∈ marketScope.typeParams ++ marketScope.methodParams, isPlainName name = true := by
    decide +kernel
  have hok : ((Call.importLibrary library).work.exec (({} : Atlas).afterAll [.load 0])).1 = .ok () := by
    -- In an atlas without declarations there is nothing to load.
    have hload : ({} : Atlas).afterAll [.load 0] = {} := rfl
    obtain ⟨es, b, hrun, -⟩ := hstored.importLibrary_enters "market.dll" {}
    rw [hload, Call.work, exec_bind, hrun]
    rfl
  exact ⟨hscoped, htext, x, hstored.namedIn,
    written_and_compiled_types_resolve_alike library hstored.nameable hstored.namedIn {} rfl [.load 0] [.load 0] hok
      marketScope rfl (by decide) hplain marketType hscoped market.kinds _ htext a rfl⟩

end TypeAtlas
