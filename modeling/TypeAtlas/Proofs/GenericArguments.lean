import TypeAtlas.Proofs.Arities
import TypeAtlas.Proofs.Culprits
import TypeAtlas.Proofs.LaterAtlases
import TypeAtlas.Proofs.ParsedNames

/-!
Generic arguments and the parameters they stand for. Main statement: in what a reference is resolved
to, every declaration has as many parameters as it is used with arguments, also inside the
arguments and behind aliases, so that binding them by position drops none of either.

A name is looked up with the number of its arguments. What is registered is found under that
number; what is defined only then is found by a mark in its stored name, and is counted anew.
-/

namespace TypeAtlas

open Metadata

variable {id : DeclId} {g : Graph}

namespace Use

mutual

/-- A use and all uses in its arguments. -/
def parts : Use → List Use
  | .declared id args array => .declared id args array :: partsEach args
  | .builtin type array => [.builtin type array]
  | .param name position owner array => [.param name position owner array]

def partsEach : List Use → List Use
  | [] => []
  | use :: uses => use.parts ++ partsEach uses

end

variable {part use : Use} {uses : List Use}

lemma mem_partsEach : part ∈ partsEach uses ↔ ∃ use ∈ uses, part ∈ use.parts := by
  induction uses with
  | nil => simp [partsEach]
  | cons use uses ih => simp [partsEach, ih]

lemma mem_parts : part ∈ use.parts ↔ part = use ∨ ∃ arg ∈ use.args, part ∈ arg.parts := by
  cases use with
  | declared id args array => simp [parts, Use.args, mem_partsEach]
  | builtin type array => simp [parts, Use.args]
  | param name position owner array => simp [parts, Use.args]

@[simp] lemma target?_withArray (array : Option ArrayShape) : (use.withArray array).target? = use.target? := by
  cases use <;> rfl

@[simp] lemma args_withArray (array : Option ArrayShape) : (use.withArray array).args = use.args := by
  cases use <;> rfl

/-- Every declaration in a use is registered and has the arity with which it is used. -/
def Fits (g : Graph) (use : Use) : Prop :=
  ∀ part ∈ use.parts, ∀ id, part.target? = some id → ∃ d, g.get? id = some d ∧ d.arity = part.args.length

/-- What a use comes to is its own declaration and its arguments. -/
lemma fits_iff : use.Fits g ↔
    (∀ id, use.target? = some id → ∃ d, g.get? id = some d ∧ d.arity = use.args.length) ∧
      ∀ arg ∈ use.args, arg.Fits g := by
  constructor
  · intro h
    refine ⟨h use (mem_parts.mpr (.inl rfl)), fun arg harg part hpart => h part ?_⟩
    exact mem_parts.mpr (.inr ⟨arg, harg, hpart⟩)
  · rintro ⟨hself, hargs⟩ part hpart
    rcases mem_parts.mp hpart with rfl | ⟨arg, harg, hpart⟩
    · exact hself
    · exact hargs arg harg part hpart

lemma Fits.withArray (h : use.Fits g) (array : Option ArrayShape) : (use.withArray array).Fits g := by
  rw [fits_iff, target?_withArray, args_withArray]
  exact fits_iff.mp h

end Use

/-- A target that a name with so many arguments can have. -/
def Target.Fits (g : Graph) (arity : Nat) : Target → Prop
  | .declaration id => ∃ d, g.get? id = some d ∧ d.arity = arity
  | .builtin _ => True
  | .aliased use => use.Fits g

lemma Target.Fits.toUse {target : Target} {uses : List Use} (h : target.Fits g uses.length)
    (huses : ∀ use ∈ uses, use.Fits g) (array : Option ArrayShape) : (target.toUse uses array).Fits g := by
  cases target with
  | declaration id =>
    refine Use.fits_iff.mpr ⟨fun other hother => ?_, huses⟩
    cases hother
    exact h
  | builtin type => exact Use.fits_iff.mpr ⟨fun _ hid => (nomatch hid), fun _ harg => (nomatch harg)⟩
  | aliased use => exact Use.Fits.withArray h _

/-! What stands for a name is made of the characters around it. -/

namespace Text

lemma mem_of_mem_trim {s : String} {c : Char} (h : c ∈ (trim s).toList) : c ∈ s.toList := by
  rw [trim, String.toList_ofList, trimChars, List.mem_reverse] at h
  have hfront := (List.dropWhile_suffix _).subset h
  exact (List.dropWhile_suffix _).subset (List.mem_reverse.mp hfront)

end Text

lemma Metadata.mem_of_mem_splitNamespace {fullName : String} {c : Char}
    (h : c ∈ (splitNamespace fullName).2.toList) : c ∈ fullName.toList := by
  unfold splitNamespace at h
  cases hcut : Text.cutLast '.' fullName with
  | none =>
    rw [hcut] at h
    exact h
  | some parts =>
    rw [hcut] at h
    rw [(Text.cutLast_eq_some_iff.mp hcut).1]
    exact List.mem_append_right _ (List.mem_cons_of_mem _ h)

/-- The document around a type brings in no mark. -/
lemma TypeRef.mark_mem_of_host {text : String} (h : '`' ∈ (host text).toList) : '`' ∈ text.toList := by
  unfold host at h
  rw [String.toList_append, String.toList_append, List.mem_append, List.mem_append] at h
  rcases h with (hbefore | hmark) | hafter
  · exact absurd hbefore (by decide)
  · exact hmark
  · exact absurd hafter (by decide)

/-- A reference whose names have no mark of an arity, and no more arguments than can be counted. -/
def TypeRef.Unmarked (ref : TypeRef) : Prop :=
  ref.Every fun name args => '`' ∉ name.toList ∧ args.length < 0x10000000000000000

instance (ref : TypeRef) : Decidable ref.Unmarked := TypeRef.decidableEvery ref

namespace Scope

variable {scope : Scope} {name directive fullName : String}

/-- What a using directive makes of a name: a name, or the reference that is behind an alias. -/
lemma usingCandidate_cases {candidate : Candidate} (h : usingCandidate name directive = some candidate) :
    (∃ fullName, candidate = .name fullName ∧
        ∀ c ∈ fullName.toList, c ∈ directive.toList ∨ c = '.' ∨ c ∈ name.toList) ∨
      ∃ title target ref, candidate = .aliased ref ∧ Text.cutFirst '=' directive = some (title, target) ∧
        TypeRef.parse (Text.trim target) = .ok ref := by
  rcases alias_or_opened directive with hopened | ⟨title, target, rfl, htitle⟩
  · rw [usingCandidate_opened hopened] at h
    refine .inl ⟨_, (Option.some.inj h).symm, fun c hc => ?_⟩
    exact (mem_of_mem_qualify hc).imp_left Text.mem_of_mem_trim
  have htarget : ∀ c ∈ (Text.trim target).toList, c ∈ (title ++ "=" ++ target).toList := by
    intro c hc
    rw [String.toList_append]
    exact List.mem_append_right _ (Text.mem_of_mem_trim hc)
  cases hcut : Text.cutFirst '.' name with
  | none =>
    rw [usingCandidate_aliased htitle (Text.cutFirst_eq_none_iff.mp hcut)] at h
    split at h
    · cases h
      unfold aliasCandidate
      dsimp only
      split
      · split
        · rename_i ref hparse
          exact .inr ⟨title, target, ref, rfl, cutFirst_alias htitle, hparse⟩
        · exact .inl ⟨_, rfl, fun c hc => .inl (htarget c hc)⟩
      · exact .inl ⟨_, rfl, fun c hc => .inl (htarget c hc)⟩
    · cases h
  | some parts =>
    obtain ⟨hname, hhead⟩ := Text.cutFirst_eq_some_iff.mp hcut
    obtain rfl : name = parts.1 ++ "." ++ parts.2 := String.toList_inj.mp (by simp [hname])
    rw [usingCandidate_within htitle hhead] at h
    split at h
    · refine .inl ⟨_, (Option.some.inj h).symm, fun c hc => ?_⟩
      simp only [String.toList_append, List.mem_append] at hc
      rcases hc with (hc | hc) | hc
      · exact .inl (htarget c hc)
      · exact .inr (.inl (by simpa using hc))
      · exact .inr (.inr (by simp [hc]))
    · cases h

/-- A scope without marks of arities, the targets of whose aliases can be counted. -/
structure Unmarked (scope : Scope) : Prop where
  ns : '`' ∉ scope.ns.toList
  usings : ∀ directive ∈ scope.usings, '`' ∉ directive.toList
  aliases : ∀ directive ∈ scope.usings, ∀ title target ref, Text.cutFirst '=' directive = some (title, target) →
    TypeRef.parse (Text.trim target) = .ok ref → ref.Every fun _ args => args.length < 0x10000000000000000

lemma Unmarked.forAlias (scope : Scope) : scope.forAlias.Unmarked where
  ns := List.not_mem_nil
  usings := fun _ hdirective => nomatch hdirective
  aliases := fun _ hdirective => nomatch hdirective

lemma Unmarked.notMem_name (h : scope.Unmarked) (hname : '`' ∉ name.toList)
    (hfull : fullName ∈ Candidate.names (scope.candidates name)) : '`' ∉ fullName.toList := by
  intro hmark
  obtain ⟨candidate, hcandidate, heq⟩ := List.mem_filterMap.mp hfull
  rcases mem_candidates_iff.mp hcandidate with rfl | ⟨outer, hencloses, rfl⟩ | ⟨directive, hdirective, husing⟩
  · cases heq
    exact hname hmark
  · cases heq
    have houter : '`' ∈ outer.toList := by simpa [hname] using hmark
    obtain ⟨-, hsame | ⟨inner, hinner⟩⟩ := hencloses
    · exact h.ns (by rwa [hsame])
    · exact h.ns (by simp [hinner, houter])
  · rcases usingCandidate_cases husing with ⟨other, rfl, hchars⟩ | ⟨title, target, ref, rfl, -, -⟩
    · cases heq
      rcases hchars _ hmark with hmem | hdot | hmem
      · exact h.usings directive hdirective hmem
      · cases hdot
      · exact hname hmem
    · cases heq

lemma Unmarked.aliased (h : scope.Unmarked) {target : TypeRef} (htarget : .aliased target ∈ scope.candidates name) :
    target.Unmarked := by
  rcases mem_candidates_iff.mp htarget with heq | ⟨_, -, heq⟩ | ⟨directive, hdirective, husing⟩
  · cases heq
  · cases heq
  rcases usingCandidate_cases husing with ⟨_, heq, -⟩ | ⟨title, text, ref, heq, hcut, hparse⟩
  · cases heq
  cases heq
  have htuple : '`' ∉ "System.ValueTuple".toList := by decide
  have hnames : target.Every fun name _ => ∀ c ∈ name.toList, c ≠ '`' := by
    refine TypeRef.every_parse hparse (fun c hc heq => ?_) fun c hc heq => htuple (heq ▸ hc)
    rw [heq] at hc
    have hmark : '`' ∈ text.toList := Text.mem_of_mem_trim (TypeRef.mark_mem_of_host hc)
    have hunmarked := h.usings directive hdirective
    rw [(Text.cutFirst_eq_some_iff.mp hcut).1] at hunmarked
    exact hunmarked (List.mem_append_right _ (List.mem_cons_of_mem _ hmark))
  exact hnames.and_imp (fun name args hname hargs => ⟨fun hmark => hname _ hmark rfl, hargs⟩)
    (h.aliases directive hdirective title text target hcut hparse)

end Scope

/-- The modules that are available and those that declarations come from have arities marked. -/
structure Atlas.ArityMarked (a : Atlas) : Prop where
  libraries : ∀ library ∈ a.libraries, library.module.ArityMarked
  modules : ∀ id d m row, a.graph.get? id = some d → d.provenance = .module m row → m.ArityMarked

namespace Work

variable {scope : Scope} {found : Use → Work Unit} {inAlias : TypeRef → Work Use} {arity row : Nat}
  {library : Library}

/-- A definition is registered under the key it is looked for, where arities are marked. -/
lemma key_define {a b : Atlas} (ha : a.graph.Indexed) (hmarked : library.module.ArityMarked)
    {key : Key} (hkey : library.markedKey row = .ok key)
    (hrun : (define library row).exec a = (.ok id, b)) : ∃ d, b.graph.get? id = some d ∧ d.key = key := by
  obtain ⟨other, hother, hcases⟩ := define_eq_ok hrun
  cases hkey.symm.trans hother
  rcases hcases with ⟨hfound, rfl⟩ | ⟨-, d, hd, rfl, rfl⟩
  · exact (ha.byKey key id).mp hfound
  · obtain ⟨e, he, hsame⟩ := ha.get?_add_self d
    obtain ⟨kind, ns, raw, generics, -, hname, hgenerics, rfl⟩ := Declaration.ofDefinition_eq_ok hd
    have hlength : generics.length = (splitArity raw).2 := by
      rw [Module.length_genericNames hgenerics, hmarked.rows row (Library.mem_typeDefRows hkey) ns raw hname]
    rw [Library.markedKey, hname] at hkey
    cases hkey
    refine ⟨e, he, hsame.trans ?_⟩
    rw [Declaration.key, Declaration.fullName, hlength]

lemma define_leaves {fullName : String}
    (hstores : library.Stores row fullName arity) (hname : '`' ∉ fullName.toList)
    (harity : arity < 0x10000000000000000) :
    Leaves (define library row) fun id c => library.module.ArityMarked →
      ∃ d, c.graph.get? id = some d ∧ d.arity = arity where
  adds := define_adds library row
  told := by
    intro a id b ha hrun c hc hmarked
    have hlast : '`' ∉ (splitNamespace fullName).2.toList := fun hmark => hname (mem_of_mem_splitNamespace hmark)
    have hkey : library.markedKey row =
        .ok ⟨qualify (splitNamespace fullName).1 (splitNamespace fullName).2, arity, library.location⟩ := by
      rw [Library.markedKey, hstores.2]
      dsimp only [bind, Except.bind, pure, Except.pure]
      rw [splitArity_markArity hlast harity]
    obtain ⟨d, hd, hsame⟩ := key_define ha hmarked hkey hrun
    obtain ⟨e, he, hheader⟩ := hc.headers id d hd
    refine ⟨e, he, ?_⟩
    rw [hheader]
    exact congrArg Key.arity hsame

lemma defineFirst_leaves {names : List String} (hnames : ∀ fullName ∈ names, '`' ∉ fullName.toList)
    (harity : arity < 0x10000000000000000) :
    Leaves (defineFirst arity names) fun found c => c.ArityMarked →
      ∀ id, found = some id → ∃ d, c.graph.get? id = some d ∧ d.arity = arity := by
  refine get_leaves.bind fun a => ?_
  cases hfirst : names.findSome? (Library.first? a.libraries arity) with
  | none => exact .pure fun c _ _ id hid => nomatch hid
  | some found =>
    obtain ⟨library, row⟩ := found
    obtain ⟨fullName, hname, hdefined⟩ := List.exists_of_findSome?_eq_some hfirst
    obtain ⟨hmem, hstores⟩ := Library.stores_of_first? hdefined
    refine (define_leaves hstores (hnames fullName hname) harity).bind fun id => .pure fun c hd hlater hmarked => ?_
    intro other hother
    cases hother
    exact hd (hmarked.libraries library (hlater.2.libraries.subset hmem))

/-- What a name is found to be fits the number of its arguments. -/
lemma target?_leaves (hscope : scope.Unmarked) {name : String} (hname : '`' ∉ name.toList)
    (harity : arity < 0x10000000000000000)
    (halias : ∀ target, target.Unmarked → Leaves (inAlias target) fun use c => c.ArityMarked → use.Fits c.graph) :
    Leaves (target? inAlias scope name arity) fun found c => c.ArityMarked →
      ∀ target, found = some target → target.Fits c.graph arity := by
  refine graph_leaves.bind fun g => ?_
  cases hmatch : g.match? scope.location arity (scope.candidates name) with
  | some found =>
    cases found with
    | inl id =>
      obtain ⟨fullName, -, hlookup⟩ := Graph.name_of_match? hmatch
      refine .pure fun c hg _ target htarget => ?_
      cases htarget
      obtain ⟨d, hd, -, hsame⟩ := hg.1.get?_lookup hlookup
      obtain ⟨e, he, hheader⟩ := hg.2 id d hd
      refine ⟨e, he, ?_⟩
      rw [hheader]
      exact hsame
    | inr target =>
      have htarget := hscope.aliased (Graph.mem_of_match?_eq_inr hmatch)
      refine (halias target htarget).bind fun use => .pure fun c huse _ hmarked found hfound => ?_
      cases hfound
      exact huse hmarked
  | none =>
    dsimp only
    split
    · refine .pure fun c _ _ target htarget => ?_
      cases htarget
      trivial
    · have hnames : ∀ fullName ∈ Candidate.names (scope.candidates name), '`' ∉ fullName.toList :=
        fun fullName hfull => hscope.notMem_name hname hfull
      refine (defineFirst_leaves hnames harity).bind fun found => .pure fun c hfound _ hmarked target htarget => ?_
      obtain ⟨id, hid, rfl⟩ := Option.map_eq_some_iff.mp htarget
      exact hfound hmarked id hid

mutual

/-- In what a reference is resolved to, every declaration has the arity it is used with. -/
lemma resolveWith_leaves (hscope : scope.Unmarked) (hfound : ∀ use, Adds (found use))
    (halias : ∀ target, target.Unmarked → Leaves (inAlias target) fun use c => c.ArityMarked → use.Fits c.graph) :
    ∀ {ref : TypeRef}, ref.Unmarked →
    Leaves (resolveWith found inAlias scope ref) fun use c => c.ArityMarked → use.Fits c.graph
  | .builtin type array, _ => by
    rw [resolveWith]
    exact .pure fun c _ => Use.fits_iff.mpr ⟨fun _ hid => (nomatch hid), fun _ harg => (nomatch harg)⟩
  | .named name args array, href => by
    obtain ⟨⟨hname, harity⟩, hargs⟩ := href
    rw [resolveWith]
    cases hparam : paramFor? scope name args with
    | some param =>
      obtain ⟨position, owner, rfl⟩ := paramFor?_eq_some hparam
      exact .pure fun c _ => Use.fits_iff.mpr ⟨fun _ hid => (nomatch hid), fun _ harg => (nomatch harg)⟩
    | none =>
      refine (resolveEachWith_leaves hscope hfound halias hargs).bind fun uses => ?_
      refine (target?_leaves hscope hname harity halias).bind fun target => ?_
      cases target with
      | none => exact Leaves.throw _
      | some target =>
        refine (Leaves.of_adds (hfound _)).bind fun _ => .pure fun c _ htarget huses hmarked => ?_
        obtain ⟨hlength, huses⟩ := huses hmarked
        refine Target.Fits.toUse ?_ huses array
        rw [hlength]
        exact htarget hmarked target rfl

lemma resolveEachWith_leaves (hscope : scope.Unmarked) (hfound : ∀ use, Adds (found use))
    (halias : ∀ target, target.Unmarked → Leaves (inAlias target) fun use c => c.ArityMarked → use.Fits c.graph) :
    ∀ {refs : List TypeRef},
      TypeRef.EveryEach (fun name args => '`' ∉ name.toList ∧ args.length < 0x10000000000000000) refs →
      Leaves (resolveEachWith found inAlias scope refs) fun uses c => c.ArityMarked →
        uses.length = refs.length ∧ ∀ use ∈ uses, use.Fits c.graph
  | [], _ => by
    rw [resolveEachWith]
    exact .pure fun c _ => ⟨rfl, fun _ huse => nomatch huse⟩
  | ref :: refs, hrefs => by
    rw [resolveEachWith]
    refine (resolveWith_leaves hscope hfound halias hrefs.1).bind fun use => ?_
    refine (resolveEachWith_leaves hscope hfound halias hrefs.2).bind fun uses => .pure fun c huses huse hmarked => ?_
    obtain ⟨hlength, huses⟩ := huses hmarked
    exact ⟨congrArg (· + 1) hlength, List.forall_mem_cons.mpr ⟨huse hmarked, huses⟩⟩

end

lemma follow_adds (use : Use) : Adds (follow use) :=
  .of_keeps (followWith_keeps load_keeps_indexed use) fun a =>
    followWith_keeps (fun id => load_keeps fun fuel => loadWith_keeps_precedes a fuel id) use

lemma resolve_leaves (hscope : scope.Unmarked) {ref : TypeRef} (href : ref.Unmarked) :
    Leaves (resolve scope ref) fun use c => c.ArityMarked → use.Fits c.graph := by
  refine resolveWith_leaves hscope follow_adds (fun target htarget => ?_) href
  exact resolveWith_leaves (.forAlias scope) follow_adds (fun _ _ => Leaves.throw _) htarget

/-- Where nothing is followed, resolution registers definitions of modules that are available, and
does nothing else. -/
lemma supplied_resolve {a : Atlas} (hlazy : a.settings.loadPolicy = .lazy) (ha : a.graph.Indexed) (scope : Scope)
    (ref : TypeRef) : ∃ added, a.Supplied (· ∈ a.libraries) added ((resolve scope ref).exec a).2 := by
  have htracks : Tracks (Regime.supplying (· ∈ a.libraries) a) [] (fun use => [use]) (resolve scope ref)
      (resolve scope ref) :=
    resolveFinding_tracks (supplying_steady fun _ hmem => hmem) (supplying_followed hlazy load) scope ref
  obtain ⟨b, _, ⟨rfl, -, hsupplied⟩, -, hruns⟩ := htracks a a ⟨rfl, ha, [], .start⟩ fun _ hu => nomatch hu
  rcases hruns with ⟨use, hrun, -, -⟩ | ⟨fault, hrun, -, -⟩
  · rwa [hrun]
  · rwa [hrun]

end Work

/-- Definitions of modules with marked arities leave it at that. -/
lemma Atlas.ArityMarked.supplied {a b : Atlas} {added : List Declaration} (ha : a.ArityMarked)
    (h : a.Supplied (· ∈ a.libraries) added b) : b.ArityMarked where
  libraries := by
    rw [h.libraries]
    exact ha.libraries
  modules := by
    intro id d m row hd hprovenance
    rcases h.get?_cases hd with hold | ⟨-, hmem⟩
    · exact ha.modules id d m row hold hprovenance
    · obtain ⟨library, _, hlibrary, hdefined⟩ := h.defined hmem
      obtain ⟨_, _, _, _, -, -, -, rfl⟩ := Declaration.ofDefinition_eq_ok hdefined
      cases hprovenance
      exact ha.libraries library hlibrary

/-- A use of a declaration with as many parameters as arguments binds all of them. -/
lemma Use.bindings_of_length {use : Use} {d : Declaration} (hid : use.target? = some id) (hd : g.get? id = some d)
    (hlength : d.shape.generics.length = use.args.length) :
    (use.bindings g).map (·.1) = d.shape.generics.map (·.name) ∧ (use.bindings g).map (·.2) = use.args := by
  cases use with
  | declared other args array =>
    cases hid
    simp only [Use.bindings, hd]
    change d.shape.generics.length = args.length at hlength
    constructor
    · exact List.map_fst_zip (by simp [hlength])
    · exact List.map_snd_zip (by simp [hlength])
  | builtin type array => cases hid
  | param name position owner array => cases hid

namespace Atlas

variable {a : Atlas} {scope : Scope} {ref : TypeRef} {use : Use}

lemma fits_after_resolve (hlazy : a.settings.loadPolicy = .lazy) (ha : a.graph.Indexed) (hmarked : a.ArityMarked)
    (hscope : scope.Unmarked) (href : ref.Unmarked) (huse : ((Work.resolve scope ref).exec a).1 = .ok use) :
    (a.after (.resolve scope ref)).ArityMarked ∧ use.Fits (a.after (.resolve scope ref)).graph := by
  obtain ⟨added, hsupplied⟩ := Work.supplied_resolve hlazy ha scope ref
  have hmarked' := hmarked.supplied hsupplied
  cases hrun : (Work.resolve scope ref).exec a with
  | mk r c =>
    rw [hrun] at huse hmarked'
    obtain rfl : r = .ok use := huse
    have hafter : a.after (.resolve scope ref) = c := by
      rw [after, Call.work, Work.exec_bind, hrun]
      rfl
    rw [hafter]
    exact ⟨hmarked', (Work.resolve_leaves hscope href).told a use c ha hrun c (.refl c) hmarked'⟩

/-- What fits once goes on to do so, and a declaration in it that is loaded binds all arguments. -/
lemma binds_afterAll (settings : Settings) {calls : List Call}
    (hcounted : (({ settings } : Atlas).afterAll calls).Counted)
    (hmarked : (({ settings } : Atlas).afterAll calls).ArityMarked)
    (huse : use.Fits (({ settings } : Atlas).afterAll calls).graph) (later : List Call) {part : Use}
    (hpart : part ∈ use.parts) (hid : part.target? = some id) :
    let b := ({ settings } : Atlas).afterAll (calls ++ later)
    ∃ d, b.graph.get? id = some d ∧ d.arity = part.args.length ∧
      (d.loaded = true → d.shape.generics.length = part.args.length ∧
        (part.bindings b.graph).map (·.1) = d.shape.generics.map (·.name) ∧
        (part.bindings b.graph).map (·.2) = part.args) := by
  intro b
  have hlasts : (({ settings } : Atlas).afterAll calls).Lasts b := by
    have hlater : b = (({ settings } : Atlas).afterAll calls).afterAll later := List.foldl_append
    rw [hlater]
    exact afterAll_induction (fun call _ => call.keeps_lasts _) (.refl _)
  obtain ⟨d, hd, harity⟩ := huse part hpart id hid
  obtain ⟨e, he, hbecomes, -⟩ := hlasts id d hd
  have hkept : e.arity = d.arity ∧ e.provenance = d.provenance := by
    rw [hbecomes.header]
    exact ⟨rfl, rfl⟩
  refine ⟨e, he, hkept.1.trans harity, fun hloaded => ?_⟩
  have hlength : e.shape.generics.length = part.args.length := by
    rw [← harity, ← hkept.1]
    refine length_generics_afterAll settings _ he hloaded ((hcounted id d hd).of_header hbecomes.header) ?_
    intro m row hprovenance
    exact hmarked.modules id d m row hd (hkept.2.symm.trans hprovenance)
  exact ⟨hlength, Use.bindings_of_length hid he hlength⟩

/-- In what a reference is resolved to, every declaration has the arity it is used with, at once and
ever after. When it is loaded, it has just so many generic parameters, and they are bound to the
arguments one by one, with none left over. -/
theorem resolved_arguments_bind (settings : Settings) (calls later : List Call) (a : Atlas) (scope : Scope)
    (ref : TypeRef) (use : Use) (hlazy : settings.loadPolicy = .lazy)
    (ha : a = ({ settings } : Atlas).afterAll calls)
    (hread : ∀ document, .addDocument document ∈ calls → ∃ path text, document = .read path text)
    (hmarked : a.ArityMarked) (hscope : scope.Unmarked) (href : ref.Unmarked)
    (huse : ((Work.resolve scope ref).exec a).1 = .ok use) :
    let b := a.afterAll (.resolve scope ref :: later)
    ∀ part ∈ use.parts, ∀ id, part.target? = some id → ∃ d, b.graph.get? id = some d ∧ d.arity = part.args.length ∧
      (d.loaded = true → d.shape.generics.length = part.args.length ∧
        (part.bindings b.graph).map (·.1) = d.shape.generics.map (·.name) ∧
        (part.bindings b.graph).map (·.2) = part.args) := by
  have hindexed : a.graph.Indexed := ha ▸ indexed_afterAll settings calls
  have hpolicy : a.settings.loadPolicy = .lazy := by
    rw [ha, settings_afterAll settings calls, hlazy]
  obtain ⟨hmarked', hfits⟩ := fits_after_resolve hpolicy hindexed hmarked hscope href huse
  have hafter : a.after (.resolve scope ref) = ({ settings } : Atlas).afterAll (calls ++ [.resolve scope ref]) := by
    rw [afterAll_append_one, ← ha]
  rw [hafter] at hmarked' hfits
  have hcounted : (({ settings } : Atlas).afterAll (calls ++ [.resolve scope ref])).Counted := by
    refine counted_afterAll settings fun document hmem => hread document ?_
    simpa using hmem
  intro b part hpart id hid
  have hb : b = ({ settings } : Atlas).afterAll (calls ++ [.resolve scope ref] ++ later) :=
    (congrArg (List.foldl after · later) hafter).trans List.foldl_append.symm
  rw [hb]
  exact binds_afterAll settings hcounted hmarked' hfits later hpart hid

def crates : Library where
  module := ((do
    let crate ← Builder.defineType 1 "Crates" "Crate`1" none
    let _ ← Builder.addGenericParam (.type crate) "T" : Build Unit).run.run (Builder.ofAssembly "Crates")).2.module
  location := "crates.dll"

def stockCalls : List Call :=
  [.addLibrary crates,
    .addDocument (.read "shop.cs" "namespace Shop \x7b class Pair<A, B> \x7b \x7d enum Tone \x7b Soft \x7d \x7d")]

/-- A scope with an alias of a type with arguments. -/
def stockScope : Scope where
  requester := "Shop.Shelf"
  location := "shelf.cs"
  ns := "Shop"
  usings := ["Stock = Shop.Pair<Crates.Crate<Shop.Tone>, int>"]

/-- A pair of what the alias stands for and of a crate. -/
def stockPair : TypeRef :=
  .named "Pair" [.named "Stock" [] none, .named "Crates.Crate" [.named "Tone" [] none] none] none

lemma unmarked_stockScope : stockScope.Unmarked where
  ns := by decide
  usings := by decide
  aliases := by
    intro directive hdirective title target ref hcut hparse
    obtain rfl := List.mem_singleton.mp hdirective
    have htarget : Text.cutFirst '=' "Stock = Shop.Pair<Crates.Crate<Shop.Tone>, int>" =
        some ("Stock ", " Shop.Pair<Crates.Crate<Shop.Tone>, int>") := by decide
    rw [htarget] at hcut
    cases hcut
    have hevery : (TypeRef.parse (Text.trim " Shop.Pair<Crates.Crate<Shop.Tone>, int>")).toOption.all fun ref =>
        decide (ref.Every fun _ args => args.length < 0x10000000000000000) := by
      decide +kernel
    rw [hparse] at hevery
    exact of_decide_eq_true hevery

/-- Both pairs are the type in the document, both crates are the one in the module, and all are
loaded in the end. -/
theorem resolved_arguments_bind_stock :
    let a := ({ settings := {} } : Atlas).afterAll stockCalls
    let b := a.afterAll [.resolve stockScope stockPair, .loadAll]
    a.ArityMarked ∧ stockScope.Unmarked ∧ stockPair.Unmarked ∧
      (b.graph.ids.map fun id => (b.graph.fullNameOf id, b.graph.isLoaded id)) =
        [("Shop.Pair", true), ("Shop.Tone", true), ("Crates.Crate", true)] ∧
      ∃ use, ((Work.resolve stockScope stockPair).exec a).1 = .ok use ∧
        use.parts.map Use.target? = [some 0, some 0, some 2, some 1, none, some 2, some 1] ∧
        ∀ part ∈ use.parts, ∀ id, part.target? = some id → ∃ d, b.graph.get? id = some d ∧ d.arity = part.args.length ∧
          (d.loaded = true → d.shape.generics.length = part.args.length ∧
            (part.bindings b.graph).map (·.1) = d.shape.generics.map (·.name) ∧
            (part.bindings b.graph).map (·.2) = part.args) := by
  intro a b
  have hread : ∀ document, .addDocument document ∈ stockCalls → ∃ path text, document = .read path text := by
    intro document hmem
    have hdocument := List.mem_singleton.mp ((List.mem_cons.mp hmem).resolve_left nofun)
    cases hdocument
    exact ⟨_, _, rfl⟩
  have hmarked : a.ArityMarked := by
    refine ⟨fun library hmem => ?_, fun id d m row hd hprovenance => ?_⟩
    · have hlibraries : a.libraries.all fun library => decide library.module.ArityMarked := by decide +kernel
      exact of_decide_eq_true (List.all_eq_true.mp hlibraries library hmem)
    · have hsource : a.graph.declarations.all (·.provenance matches .source) := by decide +kernel
      have hd := Array.all_eq_true_iff_forall_mem.mp hsource d (Array.mem_of_getElem? hd)
      rw [hprovenance] at hd
      cases hd
  have htargets : ((Work.resolve stockScope stockPair).exec a).1.toOption.map (·.parts.map Use.target?) =
      some [some 0, some 0, some 2, some 1, none, some 2, some 1] := by
    decide +kernel
  obtain ⟨use, huse, htargets⟩ := Option.map_eq_some_iff.mp htargets
  have huse := toOption_eq_some_iff.mp huse
  have href : stockPair.Unmarked := by decide
  refine ⟨hmarked, unmarked_stockScope, href, by decide +kernel, use, huse, htargets, ?_⟩
  exact resolved_arguments_bind {} stockCalls [.loadAll] a stockScope stockPair use rfl rfl hread hmarked
    unmarked_stockScope href huse

end Atlas

end TypeAtlas
