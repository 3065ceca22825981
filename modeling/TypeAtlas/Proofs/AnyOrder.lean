import Mathlib.Data.List.Perm.Basic
import TypeAtlas.Metadata.Builder
import TypeAtlas.Proofs.Completeness

/-!
Loads and resolutions in any order. Main statement: in an atlas that was filled by whole
documents and whole modules and that loads nothing on its own, each call gives the result it
has when it comes first, nothing is registered, and what is loaded in the end, with which shape
and which edges, does not depend on the order of the calls.

Nothing can be brought in, and loading reads other declarations through their headers only,
which never change. So every call finds out what it would find out at the start.
-/

namespace TypeAtlas

variable {library : Library} {α : Type}

namespace Graph

/-- The edges of a settled graph are those of its shapes. -/
lemma Settled.edges_perm {g g' : Graph} (h : g.Settled) (h' : g'.Settled)
    (hsame : g.declarations = g'.declarations) : g.edges.Perm g'.edges := by
  refine (List.perm_ext_iff_of_nodup h.nodup h'.nodup).mpr fun edge => ?_
  obtain ⟨kind, id, target⟩ := edge
  have hget : g.get? id = g'.get? id := congrArg (·[id]?) hsame
  cases hd : g.get? id with
  | none =>
    have hnone : ∀ {g : Graph}, g.Settled → g.get? id = none → ⟨kind, id, target⟩ ∉ g.edges := by
      intro g hg hnone hmem
      obtain ⟨d, hd⟩ := get?_of_lt_size (hg.sources _ hmem)
      rw [hnone] at hd
      cases hd
    exact iff_of_false (hnone h hd) (hnone h' (hget ▸ hd))
  | some d => rw [h.edges hd, h'.edges (hget ▸ hd)]

end Graph

/-- Only rows of the table have a name. -/
lemma Library.mem_typeDefRows {row : Nat} {key : Key} (h : library.markedKey row = .ok key) :
    row ∈ library.module.typeDefRows := by
  cases row with
  | zero => cases h
  | succ i =>
    have hi : i < library.module.typeDefs.size := by
      by_contra hlarge
      have hnone : library.module.typeDefs[i]? = none := Array.getElem?_eq_none (Nat.not_lt.mp hlarge)
      simp [markedKey, Metadata.Module.typeDefName, Metadata.Module.typeDef, Metadata.Module.row, hnone,
        bind, Except.bind] at h
    rw [Metadata.Module.typeDefRows, List.mem_range'_1]
    omega

namespace Atlas

/-- Atlases that differ at most in what loading found out. -/
structure Alike (a b : Atlas) : Prop where
  settings : b.settings = a.settings
  libraries : b.libraries = a.libraries
  headers : b.graph.headers = a.graph.headers

namespace Alike

variable {a b : Atlas}

lemma refl (a : Atlas) : a.Alike a := ⟨rfl, rfl, rfl⟩

lemma flag (h : a.Alike b) (id : DeclId) (loaded : Bool) : a.Alike (b.flag id loaded) :=
  ⟨h.settings, h.libraries, (b.headers_flag id loaded).trans h.headers⟩

lemma publish (h : a.Alike b) (id : DeclId) (shape : Shape) : a.Alike (b.publish id shape) :=
  ⟨h.settings, h.libraries, (b.headers_publish id shape).trans h.headers⟩

lemma findQualified (h : a.Alike b) (key : Key) : b.graph.findQualified key = a.graph.findQualified key :=
  congrArg (·.findQualified key) h.headers

lemma lookup (h : a.Alike b) (fullName : String) (arity : Nat) (location : Option String) :
    b.graph.lookup fullName arity location = a.graph.lookup fullName arity location := by
  rw [← Graph.lookup_headers, h.headers, Graph.lookup_headers]

lemma nameOf (h : a.Alike b) : b.graph.nameOf = a.graph.nameOf := by
  rw [← Graph.nameOf_headers, h.headers, Graph.nameOf_headers]

lemma size (h : a.Alike b) : b.graph.size = a.graph.size := by
  have hsize := congrArg Graph.size h.headers
  simpa [Graph.size, Graph.headers] using hsize

/-- A declaration of the second atlas has the header of one in the first. -/
lemma get? (h : a.Alike b) {id : DeclId} {d : Declaration} (hd : b.graph.get? id = some d) :
    ∃ e, a.graph.get? id = some e ∧ e.header = d.header := by
  have hheader := congrArg (·.get? id) h.headers
  simp only [Graph.get?_headers, hd] at hheader
  exact Option.map_eq_some_iff.mp hheader.symm

end Alike

end Atlas

namespace Work

variable {a b : Atlas}

/-- In a complete atlas a definition is found, under whatever key it was registered. -/
lemma exec_define_of_complete (ha : a.Complete) (hb : a.Alike b) (hlibrary : library ∈ a.libraries) (row : Nat) :
    ∃ r, (define library row).exec a = (r, a) ∧ (define library row).exec b = (r, b) := by
  rw [exec_define, exec_define]
  cases hkey : library.markedKey row with
  | error cause => exact ⟨_, rfl, rfl⟩
  | ok key =>
    dsimp only
    rw [hb.findQualified]
    cases hfound : a.graph.findQualified key with
    | some id => exact ⟨_, rfl, rfl⟩
    | none =>
      cases hd : Declaration.ofDefinition none library row with
      | error cause => exact ⟨_, rfl, rfl⟩
      | ok d =>
        obtain ⟨own, id, hid, hown⟩ := ha.defined library hlibrary row (Library.mem_typeDefRows hkey)
        have htaken : a.graph.findQualified d.key = some id := by
          rcases hown with hmarked | ⟨e, he, rfl⟩
          · cases hkey.symm.trans hmarked
            rw [hfound] at hid
            cases hid
          · rwa [Except.ok.inj (hd.symm.trans he)]
        have htaken' : b.graph.findQualified d.key = some id := (hb.findQualified d.key).trans htaken
        dsimp only
        rw [Graph.add_of_taken htaken, Graph.add_of_taken htaken']
        exact ⟨_, rfl, rfl⟩

/-- Two runs that both change nothing. -/
def Regime.still (a b : Atlas) : Regime where
  inStep c c' := c = a ∧ c' = b
  known _ _ := True

lemma still_steady (ha : a.Complete) (hb : a.Alike b) : (Regime.still a b).Steady (· ∈ a.libraries) where
  lookup := by
    rintro _ _ ⟨rfl, rfl⟩ fullName arity location
    exact (hb.lookup fullName arity location).symm
  heldLookup := fun _ _ _ _ _ _ => trivial
  nameOf := by
    rintro _ _ ⟨rfl, rfl⟩
    exact hb.nameOf.symm
  libraries := by
    rintro _ _ ⟨rfl, rfl⟩
    exact hb.libraries.symm
  present := by
    rintro _ _ ⟨rfl, rfl⟩ library hlibrary
    exact hlibrary
  skips := by
    rintro _ _ ⟨rfl, rfl⟩
    rw [hb.settings]
  define := by
    rintro library row hlibrary _ _ ⟨rfl, rfl⟩ -
    obtain ⟨r, hrun, hrun'⟩ := exec_define_of_complete ha hb hlibrary row
    refine ⟨_, _, ⟨rfl, rfl⟩, fun _ _ => trivial, ?_⟩
    cases r with
    | ok id => exact .inl ⟨id, hrun, hrun', trivial⟩
    | error fault => exact .inr ⟨fault, hrun, hrun', trivial⟩
  held := fun _ _ _ _ _ => trivial
  toInherits := .of_known fun _ _ => trivial

lemma still_followed (hlazy : a.settings.loadPolicy = .lazy) (hb : a.Alike b)
    (load load' : DeclId → Work Unit) :
    Followed (Regime.still a b) (followWith load) (followWith load') := by
  rintro use _ _ ⟨rfl, rfl⟩ -
  refine ⟨_, _, ⟨rfl, rfl⟩, fun _ _ => trivial, .inl ⟨(), exec_followWith_of_lazy hlazy load use, ?_, trivial⟩⟩
  exact exec_followWith_of_lazy (hb.settings ▸ hlazy) load' use

lemma Tracks.exec_still {uses : α → List Use} {w w' : Work α} (h : Tracks (Regime.still a b) [] uses w w') :
    w'.exec b = ((w.exec a).1, b) := by
  obtain ⟨_, _, ⟨rfl, rfl⟩, -, ⟨x, hw, hw', -⟩ | ⟨fault, hw, hw', -⟩⟩ :=
    h a b ⟨rfl, rfl⟩ fun _ hu => by cases hu
  · rw [hw, hw']
  · rw [hw, hw']

end Work

namespace Atlas

variable {asked' : List DeclId} {shape : Shape}

def found (a : Atlas) (d : Declaration) : Except Fault Shape := ((Work.shapeOf Work.follow d).exec a).1

/-- What became of a declaration after the declarations `asked` were to be loaded. -/
def progress (a : Atlas) (asked : List DeclId) (id : DeclId) (d : Declaration) : Declaration :=
  if d.loaded = false ∧ id ∈ asked then
    match a.found d with
    | .ok shape => { d with loaded := true, shape := shape }
    | .error _ => d
  else d

/-- An atlas on the way from `a`, where the declarations `asked` were to be loaded. -/
structure Reached (a : Atlas) (asked : List DeclId) (b : Atlas) : Prop extends a.Alike b where
  settled : b.graph.Settled
  declarations : ∀ id, b.graph.get? id = (a.graph.get? id).map (a.progress asked id)

/-- The result of loading a declaration. -/
def loadReply (a : Atlas) (id : DeclId) : Except Fault Unit :=
  match a.graph.get? id with
  | none => .ok ()
  | some d => if d.loaded then .ok () else (a.found d).map fun _ => ()

variable {a b : Atlas} {asked : List DeclId} {id : DeclId} {d : Declaration}

lemma loadReply_of_loaded (hd : a.graph.get? id = some d) (hloaded : d.loaded = true) :
    a.loadReply id = .ok () := by
  simp [loadReply, hd, hloaded]

lemma loadReply_of_unloaded (hd : a.graph.get? id = some d) (hunloaded : d.loaded = false) :
    a.loadReply id = (a.found d).map fun _ => () := by
  simp [loadReply, hd, hunloaded]

lemma progress_of_loaded (h : d.loaded = true) : a.progress asked id d = d := by
  simp [progress, h]

lemma progress_of_not_mem (h : id ∉ asked) : a.progress asked id d = d := by
  simp [progress, h]

lemma progress_of_error {fault : Fault} (h : a.found d = .error fault) : a.progress asked id d = d := by
  unfold progress
  rw [h]
  split <;> rfl

lemma progress_of_ok (hunloaded : d.loaded = false) (hid : id ∈ asked) (h : a.found d = .ok shape) :
    a.progress asked id d = { d with loaded := true, shape := shape } := by
  unfold progress
  rw [if_pos ⟨hunloaded, hid⟩, h]

/-- Only what is to be loaded counts, not how often and in which order. -/
lemma progress_congr (h : id ∈ asked ↔ id ∈ asked') : a.progress asked id = a.progress asked' id := by
  funext d
  simp only [progress, h]

lemma progress_cons_of_ne {other : DeclId} (h : other ≠ id) :
    a.progress (id :: asked) other = a.progress asked other :=
  progress_congr (by simp [h])

lemma Reached.initial (ha : a.Complete) : a.Reached [] a where
  toAlike := .refl a
  settled := ha.settled
  declarations := by
    intro id
    have hsame : a.progress [] id = fun d => d := funext fun _ => progress_of_not_mem List.not_mem_nil
    rw [hsame]
    exact Option.map_id'.symm

lemma Reached.congr (h : a.Reached asked b) (hsame : ∀ id, id ∈ asked ↔ id ∈ asked') : a.Reached asked' b :=
  ⟨h.toAlike, h.settled, fun id => (h.declarations id).trans (by rw [progress_congr (hsame id)])⟩

/-- What is to be loaded may already be as it will be. -/
lemma Reached.again (h : a.Reached asked b)
    (hsame : ∀ d, a.graph.get? id = some d → a.progress (id :: asked) id d = a.progress asked id d) :
    a.Reached (id :: asked) b where
  toAlike := h.toAlike
  settled := h.settled
  declarations := by
    intro other
    rw [h.declarations]
    by_cases hid : other = id
    · subst hid
      cases hd : a.graph.get? other with
      | none => rfl
      | some d => exact congrArg some (hsame d hd).symm
    · rw [progress_cons_of_ne hid]

lemma Reached.publish (h : a.Reached asked b) (hd : a.graph.get? id = some d) (hunloaded : d.loaded = false)
    (hid : id ∉ asked) (hfound : a.found d = .ok shape) (hsettled : ((b.flag id true).publish id shape).graph.Settled) :
    a.Reached (id :: asked) ((b.flag id true).publish id shape) where
  toAlike := (h.flag id true).publish id shape
  settled := hsettled
  declarations := by
    intro other
    rw [get?_publish, get?_flag, h.declarations]
    split
    · rename_i hother
      subst hother
      rw [hd, Option.map_some, Option.map_some, Option.map_some, Option.map_some, progress_of_not_mem hid,
        progress_of_ok hunloaded List.mem_cons_self hfound]
    · rename_i hother
      rw [progress_cons_of_ne (Ne.symm hother)]

end Atlas

namespace Work

variable {a b : Atlas}

section

variable (ha : a.Complete) (hlazy : a.settings.loadPolicy = .lazy)

include ha hlazy

lemma exec_shapeOf_alike (hb : a.Alike b)
    (load : DeclId → Work Unit) {id : DeclId} {d : Declaration} (hd : b.graph.get? id = some d) (loaded : Bool) :
    (shapeOf (followWith load) d).exec (b.flag id loaded) = (a.found d, b.flag id loaded) := by
  have hmark := hb.flag id loaded
  refine (shapeOf_tracks (still_steady ha hmark) (still_followed hlazy hmark Work.load load) d ?_).exec_still
  intro m row hprovenance
  obtain ⟨e, he, hheader⟩ := hb.get? hd
  have hlocation : e.location = d.location := congrArg (·.location) hheader
  have hsame : e.provenance = d.provenance := congrArg (·.provenance) hheader
  rw [← hlocation]
  exact ha.homed he (hsame.trans hprovenance)

lemma exec_resolve_alike (hb : a.Alike b) (scope : Scope) (ref : TypeRef) :
    (resolve scope ref).exec b = (((resolve scope ref).exec a).1, b) :=
  (resolveFinding_tracks (still_steady ha hb) (still_followed hlazy hb load load) scope ref).exec_still

/-- A load finds out of its declaration what is found out at the start. -/
lemma exec_load_alike (hb : a.Alike b) (hsettled : b.graph.Settled) (id : DeclId) :
    (load id).exec b = match b.graph.get? id with
      | none => (.ok (), b)
      | some d =>
        if d.loaded then (.ok (), b)
        else match a.found d with
          | .ok shape => (.ok (), (b.flag id true).publish id shape)
          | .error fault => (.error fault, b) := by
  rw [exec_load, exec_loadWith]
  cases hd : b.graph.get? id with
  | none => rfl
  | some d =>
    dsimp only
    rw [exec_shapeOf_alike ha hlazy hb _ hd]
    cases hloaded : d.loaded with
    | true => rfl
    | false =>
      have hempty := hsettled.empty hd hloaded
      simp only [Bool.false_eq_true, if_false, hempty, Shape.onto_empty]
      cases a.found d with
      | ok shape => rfl
      | error fault =>
        dsimp only
        rw [Atlas.rollBack_flag hd hloaded hempty]

/-- Loading a declaration, wherever it comes in the order. -/
lemma exec_load_reached {asked : List DeclId} (hb : a.Reached asked b) (id : DeclId) :
    ∃ c, (load id).exec b = (a.loadReply id, c) ∧ a.Reached (id :: asked) c := by
  have hrun := exec_load_alike ha hlazy hb.toAlike hb.settled id
  cases hd : a.graph.get? id with
  | none =>
    rw [hb.declarations, hd] at hrun
    have hreply : a.loadReply id = .ok () := by rw [Atlas.loadReply, hd]
    exact ⟨b, hreply ▸ hrun, hb.again fun d hd' => by rw [hd] at hd'; cases hd'⟩
  | some d =>
    rw [hb.declarations, hd, Option.map_some] at hrun
    have hagain : a.progress (id :: asked) id d = a.progress asked id d → a.Reached (id :: asked) b :=
      fun hsame => hb.again fun e he => by rwa [← Option.some.inj (hd.symm.trans he)]
    cases hloaded : d.loaded with
    | true =>
      rw [Atlas.progress_of_loaded hloaded] at hrun
      simp only [hloaded, if_true] at hrun
      rw [Atlas.loadReply_of_loaded hd hloaded]
      exact ⟨b, hrun, hagain (by simp only [Atlas.progress_of_loaded hloaded])⟩
    | false =>
      rw [Atlas.loadReply_of_unloaded hd hloaded]
      cases hfound : a.found d with
      | error fault =>
        rw [Atlas.progress_of_error hfound] at hrun
        simp only [hloaded, Bool.false_eq_true, if_false, hfound] at hrun
        exact ⟨b, hrun, hagain (by simp only [Atlas.progress_of_error hfound])⟩
      | ok shape =>
        by_cases hid : id ∈ asked
        · have hdone := Atlas.progress_of_ok hloaded hid hfound
          have hstill := Atlas.progress_of_ok hloaded (List.mem_cons_of_mem id hid) hfound
          rw [hdone] at hrun
          exact ⟨b, hrun, hagain (hstill.trans hdone.symm)⟩
        · rw [Atlas.progress_of_not_mem hid] at hrun
          simp only [hloaded, Bool.false_eq_true, if_false, hfound] at hrun
          have hsettled := load_keeps_settled id b hb.settled
          rw [hrun] at hsettled
          exact ⟨_, hrun, hb.publish hd hloaded hid hfound hsettled⟩

end

lemma exec_wrap {β : Type} {w : Work α} {r : Except Fault α} (wrap : α → β) (h : w.exec a = (r, b)) :
    (do let x ← w; return wrap x : Work β).exec a = (r.map wrap, b) := by
  rw [exec_bind, h]
  cases r <;> rfl

end Work

/-- What an atlas is asked. -/
inductive Query where
  | load (id : DeclId)
  | resolve (scope : Scope) (ref : TypeRef)

namespace Query

/-- The work of a query; only a resolution gives a use. -/
def work : Query → Work (Option Use)
  | load id => do
    Work.load id
    return none
  | resolve scope ref => do
    let use ← Work.resolve scope ref
    return some use

def loads : Query → List DeclId
  | load id => [id]
  | resolve .. => []

end Query

namespace Atlas

/-- The result of a query that comes first. -/
def reply (a : Atlas) (query : Query) : Except Fault (Option Use) := (query.work.exec a).1

/-- Ask one query after another, also behind one that fails: the results in this order, and the
atlas in the end. -/
def askAll (a : Atlas) : List Query → List (Except Fault (Option Use)) × Atlas
  | [] => ([], a)
  | query :: queries =>
    let (result, b) := query.work.exec a
    let (results, c) := b.askAll queries
    (result :: results, c)

variable {a b : Atlas} {asked : List DeclId}

/-- A query gives the result it has when it comes first. -/
lemma Reached.ask (ha : a.Complete) (hlazy : a.settings.loadPolicy = .lazy) (hb : a.Reached asked b)
    (query : Query) : ∃ c, query.work.exec b = (a.reply query, c) ∧ a.Reached (query.loads ++ asked) c := by
  cases query with
  | load id =>
    obtain ⟨c, hrun, hc⟩ := Work.exec_load_reached ha hlazy hb id
    obtain ⟨first, hfirst, -⟩ := Work.exec_load_reached ha hlazy (.initial ha) id
    have hreply : a.reply (.load id) = (a.loadReply id).map fun _ => none :=
      congrArg Prod.fst (Work.exec_wrap (fun _ => none) hfirst)
    exact ⟨c, hreply ▸ Work.exec_wrap (fun _ => none) hrun, hc⟩
  | resolve scope ref =>
    have hrun := Work.exec_resolve_alike ha hlazy hb.toAlike scope ref
    have hfirst := Work.exec_resolve_alike ha hlazy (.refl a) scope ref
    have hreply : a.reply (.resolve scope ref) = ((Work.resolve scope ref).exec a).1.map some :=
      congrArg Prod.fst (Work.exec_wrap some hfirst)
    exact ⟨b, hreply ▸ Work.exec_wrap some hrun, hb⟩

/-- One query after another: each gives the result it has when it comes first. -/
lemma Reached.askAll (ha : a.Complete) (hlazy : a.settings.loadPolicy = .lazy) (hb : a.Reached asked b)
    (queries : List Query) :
    (b.askAll queries).1 = queries.map a.reply ∧
      a.Reached (queries.flatMap Query.loads ++ asked) (b.askAll queries).2 := by
  induction queries generalizing b asked with
  | nil => exact ⟨rfl, hb⟩
  | cons query queries ih =>
    obtain ⟨c, hrun, hc⟩ := hb.ask ha hlazy query
    obtain ⟨hresults, hreached⟩ := ih hc
    have hall : b.askAll (query :: queries) = (a.reply query :: (c.askAll queries).1, (c.askAll queries).2) := by
      rw [Atlas.askAll, hrun]
    rw [hall]
    refine ⟨congrArg _ hresults, hreached.congr fun id => ?_⟩
    simp only [List.flatMap_cons, List.mem_append]
    tauto

lemma Reached.declarations_eq {c : Atlas} (hb : a.Reached asked b) (hc : a.Reached asked c) :
    b.graph.declarations = c.graph.declarations :=
  Array.ext_getElem? fun id => (hb.declarations id).trans (hc.declarations id).symm

/-- In an atlas that was filled by whole documents and whole modules and loads nothing on its
own, loads and resolutions can be made in any order. None registers a declaration, each gives
the result it has when it comes first, and in the end the same declarations are loaded, with the
same shapes and the same edges. -/
theorem asked_in_any_order (a : Atlas) (henrolled : a.Enrolled) (hlazy : a.settings.loadPolicy = .lazy)
    (queries order : List Query) (hperm : order.Perm queries) :
    (∀ front, front <+: order → (a.askAll front).2.graph.size = a.graph.size) ∧
      (a.askAll order).1 = order.map a.reply ∧
      (a.askAll order).2.graph.declarations = (a.askAll queries).2.graph.declarations ∧
      (a.askAll order).2.graph.edges.Perm (a.askAll queries).2.graph.edges := by
  have ha := henrolled.complete
  have hreached := (Reached.initial ha).askAll ha hlazy
  have hsame : a.Reached (order.flatMap Query.loads ++ []) (a.askAll queries).2 := by
    refine (hreached queries).2.congr fun id => ?_
    simp only [List.append_nil, List.mem_flatMap, hperm.mem_iff]
  have hdeclarations := (hreached order).2.declarations_eq hsame
  refine ⟨fun front _ => (hreached front).2.size, (hreached order).1, hdeclarations, ?_⟩
  exact (hreached order).2.settled.edges_perm hsame.settled hdeclarations

/-- A module with a type that is marked for two arguments but has one parameter, and a type that
extends it. -/
def gears : Library where
  module := ((do
    let gear ← Metadata.Builder.defineType 1 "Gears" "Gear`2" none
    let _ ← Metadata.Builder.addGenericParam (.type gear) "T"
    let _ ← Metadata.Builder.defineType 1 "Gears" "Cog" (some (.definition gear)) : Metadata.Build Unit).run.run
      (Metadata.Builder.ofAssembly "Gears")).2.module
  location := "gears.dll"

/-- Source with a type on top of the module and one whose base is nowhere. -/
def mill : Source.Document := .read "mill.cs"
  "class Mill : Gears.Cog \x7b \x7d class Lost : Nowhere \x7b \x7d"

def millAtlas : Atlas := ({} : Atlas).afterAll [.importLibrary gears, .addDocument mill]

/-- Loads of which one fails and one comes twice, and a name that the module knows by its marker
only. -/
def millQueries : List Query :=
  [.load 2,
    .resolve { requester := "Mill", location := "mill.cs" }
      (.named "Gears.Gear" [.builtin .int none, .builtin .string none] none),
    .load 3, .load 1, .load 2]

lemma enrolled_millAtlas : millAtlas.Enrolled := by
  have hok : ∀ {r : Except Fault Unit}, r.isOk = true → r = .ok () := by
    rintro (_ | _) h
    · cases h
    · rfl
  have himported : (({} : Atlas).after (.importLibrary gears)).Enrolled :=
    .enrol _ (.initial {}) rfl (hok (by decide +kernel))
  exact .enrol (.addDocument mill) himported rfl (hok (by decide +kernel))

theorem asked_in_any_order_mill :
    millAtlas.Enrolled ∧ millAtlas.settings.loadPolicy = .lazy ∧ millQueries.reverse.Perm millQueries ∧
      (∀ front, front <+: millQueries.reverse → (millAtlas.askAll front).2.graph.size = millAtlas.graph.size) ∧
      (millAtlas.askAll millQueries.reverse).1 = millQueries.reverse.map millAtlas.reply ∧
      (millAtlas.askAll millQueries.reverse).2.graph.declarations =
        (millAtlas.askAll millQueries).2.graph.declarations ∧
      (millAtlas.askAll millQueries.reverse).2.graph.edges.Perm (millAtlas.askAll millQueries).2.graph.edges := by
  have hlazy : millAtlas.settings.loadPolicy = .lazy := by decide +kernel
  exact ⟨enrolled_millAtlas, hlazy, List.reverse_perm _,
    asked_in_any_order millAtlas enrolled_millAtlas hlazy millQueries millQueries.reverse (List.reverse_perm _)⟩

example : (millAtlas.askAll millQueries).2.graph.loadedIds = [1, 2] := by decide +kernel

end Atlas

end TypeAtlas
