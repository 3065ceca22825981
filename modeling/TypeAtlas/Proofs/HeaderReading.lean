import TypeAtlas.Proofs.TypeReading

/-!
Reading what declarations are made of besides types: generic parameters, parameters,
constraints and lists of bases. Each is read as the plan that is written says.
-/

namespace TypeAtlas.Source.Reader

variable {F G : Option Lexeme → Prop} {g : Grammar}

lemma attributeLists_passes (h : ∀ next, F next → next ≠ some (.mark "[")) :
    Takes (attributeLists g) [] F fun _ found => found = [] :=
  TakesTo.many_none (mark_refuses h).bind

lemma words_refuse {words : List String} (h : ∀ word, F (some (.word word)) → word ∉ words) :
    Refuses (nextIf fun token => token.kind == .word && words.contains token.text) [] F :=
  nextIf_refuses fun _ => isAnyWord_eq_false h

lemma modifiers_pass (h : ∀ word, F (some (.word word)) → word ∉ modifiers) :
    Takes (many modifier) [] F fun _ found => found = [] :=
  TakesTo.many_none (words_refuse h).bind

lemma typeParams_takes {generics : List PlanParam} (hne : generics ≠ [])
    (hnames : ∀ param ∈ generics, isPlainName param.name = true) :
    Takes (typeParams g) (PlanParam.names generics) F fun _ found => found = generics.map PlanParam.name := by
  have hname : ∀ param ∈ generics, Takes (do
      let _ ← attributeLists g
      if ← atAnyKeyword ["in", "out"] then
        let _ ← next
      name) [.word param.name] (fun _ => True) fun _ found => found = param.name := by
    intro param hparam
    have hword := notMem_keywords (hnames param hparam) (show ∀ word ∈ ["in", "out"], word ∈ keywords by decide)
    refine (attributeLists_passes (F := (· = some (.word param.name))) (by simp)).look (fun _ _ => ?_) fun _ _ => rfl
    exact (atAnyKeyword_other hword).look_eq (name_takes param.name) fun _ _ => rfl
  obtain ⟨first, rest, rfl⟩ := List.exists_cons_of_ne_nil hne
  rw [PlanParam.names, angled_map hne]
  refine (mark_takes "<").andThen fun _ _ _ => ?_
  refine (TakesTo.commaList1 (G := (· = some (.mark ">"))) hname trivial ?_).bind ?_ fun _ _ => rfl
  · rintro _ rfl
    exact ⟨trivial, by decide⟩
  · intro _ names hnames
    exact (mark_takes ">").bind_pure fun _ _ _ => eq_map_of_forall₂ hnames

/-- What stands before a dot is no constraint without a type. -/
lemma bareConstraint_refuses (word : String) (s : List Lexeme) :
    Refuses bareConstraint (.word word :: .mark "." :: s) F := by
  have hdot : Refuses (do
      if (← atMark ".") || (← atMark "<") || (← atMark "::") then failure : Reader Unit) [] (· = some (.mark ".")) := by
    refine (atMark_finds ".").look_refuse_eq ?_
    refine (atMark_looks "<").andRefuse fun _ => ?_
    exact (atMark_looks "::").andRefuse fun _ => Refuses.failure
  refine (anyWord_takes word).andRefuse (s := [.word word]) fun token =>
    Refuses.before (F := (· = some (.mark "."))) ?_ fun _ _ => rfl
  split
  · exact (markIf_other (show "?" ≠ "." by decide)).look_refuse fun _ _ => hdot
  · exact hdot
  · exact hdot
  · exact hdot
  · exact hdot
  · exact (mark_refuses_other (by decide)).bind
  · exact (keyword_refuses fun _ hnext => by simp [hnext]).bind
  · exact Refuses.failure.bind

end TypeAtlas.Source.Reader

namespace TypeAtlas

variable {generics : List PlanParam} {g : Grammar}

open Source Source.Reader

variable {decls : List PlanDecl} {scope : PlanScope} {depth : Nat} {F : Option Lexeme → Prop} {type : PlanType}

def ParamRead (decls : List PlanDecl) (scope : PlanScope) (param : String × PlanType) (tree : ParameterTree) : Prop :=
  tree.name = param.1 ∧ tree.type = some (param.2.tree decls scope)

lemma param_takes {spelling : List Lexeme} {tree : TypeTree} (h : ReadsAs spelling tree)
    (hdepth : spelling.length ≤ depth) (name : String) :
    Takes (Reader.param (grammar depth)) (spelling ++ [.word name]) (· ≠ some (.mark "=")) fun _ found =>
      found.name = name ∧ found.type = some tree := by
  have htyped : Takes (typedParam (grammar depth)) (spelling ++ [.word name]) (· ≠ some (.mark "=")) fun _ found =>
      found = (some tree, name) := by
    refine (h.takes hdepth).bind (fun _ type htype => ?_) fun _ _ => endsType_word _
    subst htype
    exact (name_takes name).bind_pure fun _ _ hname => by rw [hname]
  have hinner : Takes (do
      let _ ← attributeLists (grammar depth)
      let _ ← many (nextIf fun token => token.kind == .word && paramModifiers.contains token.text)
      let declared ← typedParam (grammar depth) <|> (do return (none, ← plainName))
      let _ ← Reader.optional do
        mark "="
        (grammar depth).expression
      return declared) (spelling ++ [.word name]) (· ≠ some (.mark "=")) fun _ found => found = (some tree, name) := by
    refine (attributeLists_passes (F := StartsType) fun _ h => h.ne_mark "[").look (fun _ _ => ?_)
      fun next _ => h.starts _ next
    refine (TakesTo.many_none (F := StartsType) (words_refuse fun word h => h.notMem (by decide) rfl)).look
      (fun _ _ => ?_) fun next _ => h.starts _ next
    refine (TakesTo.orElse_left htyped).bind_nil fun _ declared hdeclared => ?_
    exact (TakesTo.optional_none (mark_refuses fun _ hnext => hnext).bind).bind_pure fun _ _ _ => hdeclared
  refine (hinner.withText (by simp)).bind_nil ?_
  rintro _ ⟨⟨type, name⟩, text, span⟩ ⟨heq, -⟩
  cases heq
  exact .pure ⟨rfl, rfl⟩

lemma param_refuses (depth : Nat) : Refuses (Reader.param (grammar depth)) [] (· = some (.mark ")")) := by
  refine Refuses.bind (Refuses.withText ?_)
  refine (attributeLists_passes (by simp)).look_refuse fun _ _ => ?_
  refine (TakesTo.many_none (words_refuse (by simp))).look_refuse fun _ _ => ?_
  refine Refuses.bind (Refuses.orElse (Refuses.bind ?_) (Refuses.bind (Refuses.bind (nextIf_refuses ?_))))
  · refine (grammar_type_refuses depth).follow ?_
    rintro _ rfl
    exact noType_mark (by decide)
  · intro token htoken
    rw [Token.lexeme, Option.some.injEq] at htoken
    rw [show token.kind = .mark from congrArg Lexeme.kind htoken]
    rfl

/-- Parameters in parentheses. -/
lemma params_take {ι : Type} {items : List ι} (label : ι → String) {spell : ι → List Lexeme} {tree : ι → TypeTree}
    (h : ∀ i ∈ items, ReadsAs (spell i) (tree i))
    (hdepth : (commas (fun i => spell i ++ [.word (label i)]) items).length ≤ depth) :
    Takes (Reader.params (grammar depth)) ([.mark "("] ++ (commas (fun i => spell i ++ [.word (label i)]) items ++ [.mark ")"]))
      F fun _ => List.Forall₂ (fun i found => found.name = label i ∧ found.type = some (tree i)) items := by
  have htake : ∀ i ∈ items, Takes (Reader.param (grammar depth)) (spell i ++ [.word (label i)]) (· ≠ some (.mark "="))
      fun _ found => found.name = label i ∧ found.type = some (tree i) := by
    intro i hi
    have hle := @length_le_length_commas ι items (fun i => spell i ++ [.word (label i)]) i hi
    rw [List.length_append] at hle
    exact param_takes (h i hi) (by omega) (label i)
  refine (mark_takes "(").andThen fun _ _ _ => ?_
  refine (TakesTo.commaList (G := (· = some (.mark ")"))) htake (by decide) ?_ (param_refuses depth)).bind ?_ fun _ _ => rfl
  · rintro _ rfl
    decide
  · intro _ trees htrees
    exact (mark_takes ")").bind_pure fun _ _ _ => htrees

/-! Constraints and bases. -/

lemma PlanType.fits_of_fitsBase (h : type.fitsBase scope = true) : type.fits scope = true :=
  ((Bool.and_eq_true _ _).mp h).2

/-- A base or a constraint begins with a namespace. -/
lemma PlanType.spelling_base (hscope : scope.Named decls) (h : type.fitsBase scope = true) :
    ∃ word rest, type.spelling decls scope = .word word :: .mark "." :: rest := by
  obtain ⟨hdeclared, hfits⟩ := (Bool.and_eq_true _ _).mp h
  cases type with
  | declared place args =>
    obtain ⟨d, hmem, hd, -, -⟩ := exists_declared hscope (inScope_of_fits hfits)
    obtain ⟨first, middle, hspaces⟩ := List.exists_cons_of_ne_nil (hscope.decls d hmem).1
    rw [spelling, stem, hd, Option.map_some, Option.getD_some, PlanDecl.path, hspaces]
    cases middle with
    | nil => exact ⟨first, _, rfl⟩
    | cons second middle => exact ⟨first, _, rfl⟩
  | builtin | nullable | param | array => cases hdeclared

lemma constraint_takes (hscope : scope.Named decls) (hfits : type.fitsBase scope = true)
    (hdepth : (type.spelling decls scope).length ≤ depth) :
    Takes (Reader.constraint (grammar depth)) (type.spelling decls scope) EndsType fun _ found =>
      found = some (type.tree decls scope) := by
  have hscoped := PlanType.inScope_of_fits (PlanType.fits_of_fitsBase hfits)
  have htype := (PlanType.readsAs hscope hscoped).takes hdepth
  refine TakesTo.orElse_right (Refuses.bind ?_) (htype.map fun _ _ h => by rw [h])
  obtain ⟨word, rest, hspelling⟩ := PlanType.spelling_base hscope hfits
  rw [hspelling]
  exact bareConstraint_refuses word rest

/-- What follows a list of types. -/
def EndsTypes (next : Option Lexeme) : Prop := EndsType next ∧ next ≠ some (.mark ",")

lemma constraints_take (hscope : scope.Named decls) {param : PlanParam} (hne : param.constraints ≠ [])
    (hfits : ∀ type ∈ param.constraints, type.fitsBase scope = true)
    (hdepth : (param.spelling decls scope).length ≤ depth) :
    Takes (Reader.constraints (grammar depth)) (param.spelling decls scope) EndsTypes fun _ found =>
      found = param.clause decls scope := by
  have htake : ∀ type ∈ param.constraints, Takes (Reader.constraint (grammar depth)) (type.spelling decls scope)
      EndsType fun _ found => found = some (type.tree decls scope) := by
    intro type htype
    have hle : (type.spelling decls scope).length ≤ (commas (PlanType.spelling decls scope) param.constraints).length :=
      length_le_length_commas htype
    simp only [PlanParam.spelling, List.length_cons] at hdepth
    exact constraint_takes hscope (hfits type htype) (by omega)
  obtain ⟨first, rest, hconstraints⟩ := List.exists_cons_of_ne_nil hne
  rw [PlanParam.spelling, hconstraints]
  rw [hconstraints] at htake
  refine (keyword_takes "where").andThen (s := [.word "where"]) fun _ _ _ => ?_
  refine (name_takes param.name).andThen (s := [.word param.name]) fun _ name hname => ?_
  subst hname
  refine (mark_takes ":").andThen (s := [.mark ":"]) fun _ _ _ => ?_
  refine (TakesTo.commaList1 htake (endsType_mark (by decide)) fun _ hnext => hnext).bind_pure fun _ types htypes => ?_
  rw [eq_map_of_forall₂ htypes, PlanParam.clause, hconstraints, List.filterMap_map]
  congr 1
  exact congrFun List.filterMap_eq_map _

lemma clauses_take (hscope : scope.Named decls)
    (hfits : ∀ param ∈ generics, ∀ type ∈ param.constraints, type.fitsBase scope = true)
    (hdepth : ((PlanParam.constrained generics).flatMap (PlanParam.spelling decls scope)).length ≤ depth) :
    Takes (many (Reader.constraints (grammar depth)))
      ((PlanParam.constrained generics).flatMap (PlanParam.spelling decls scope)) (· = some (.mark ";")) fun _ found =>
        found = (PlanParam.constrained generics).map (PlanParam.clause decls scope) := by
  have htake : ∀ param ∈ PlanParam.constrained generics, Takes (Reader.constraints (grammar depth))
      (param.spelling decls scope) EndsTypes fun _ found => found = param.clause decls scope := by
    intro param hparam
    obtain ⟨hmem, hne⟩ := List.mem_filter.mp hparam
    have hle : (param.spelling decls scope).length ≤
        ((PlanParam.constrained generics).flatMap (PlanParam.spelling decls scope)).length :=
      (List.sublist_flatten_of_mem (List.mem_map_of_mem hparam)).length_le
    exact constraints_take hscope (by simpa using hne) (hfits param hmem) (by omega)
  have hmany := TakesTo.many (G := (· = some (.mark ";"))) htake (fun param _ => ⟨by simp [PlanParam.spelling], ?_⟩) ?_ ?_
  · exact hmany.imp fun _ _ hfound => eq_map_of_forall₂ hfound
  · exact ⟨endsType_word _, by simp [PlanParam.spelling]⟩
  · rintro _ rfl
    exact ⟨endsType_mark (by decide), by decide⟩
  · exact (keyword_refuses fun _ hnext => by simp [hnext]).bind

lemma baseEntry_takes (hscope : scope.Named decls) (hfits : type.fits scope = true)
    (hdepth : (type.spelling decls scope).length ≤ depth) :
    Takes (Reader.baseEntry (grammar depth)) (type.spelling decls scope)
      (fun next => EndsType next ∧ next ≠ some (.mark "(")) fun _ found => found = [type.tree decls scope] := by
  have htype := (PlanType.readsAs hscope (PlanType.inScope_of_fits hfits)).takes hdepth
  refine (noteTypes_takes (F := fun _ => True)).look_eq ?_ fun _ _ => trivial
  refine (htype.follow fun _ hnext => hnext.1).bind_nil fun _ tree htree => ?_
  subst htree
  refine (atMark_passes (F := (· ≠ some (.mark "("))) fun _ h => h).look_eq ?_ fun _ hnext => hnext.2
  refine TakesTo.look (F := fun _ => True) (.pure rfl) (fun between hbetween => ?_) fun _ _ => trivial
  subst hbetween
  refine (TakesTo.optional_none (F := (· ≠ some (.mark "("))) (mark_refuses fun _ h => h).bind).look (fun _ _ => ?_)
    fun _ hnext => hnext.2
  refine (atMark_looks ",").look_any fun found => ?_
  cases found with
  | true => exact noteTypes_takes.bind_pure fun _ _ hafter => by rw [hafter]; rfl
  | false => exact .pure rfl

def EndsBases (next : Option Lexeme) : Prop := EndsTypes next ∧ next ≠ some (.mark "(")

lemma endsBases_word (text : String) : EndsBases (some (.word text)) :=
  ⟨⟨endsType_word text, by simp⟩, by simp⟩

lemma endsBases_mark {text : String} (h : text ∉ [".", "<", "::", "?", "*", "[", ",", "("]) :
    EndsBases (some (.mark text)) := by
  simp only [List.mem_cons, List.not_mem_nil, or_false, not_or] at h
  refine ⟨⟨endsType_mark (by simp [h]), ?_⟩, ?_⟩ <;> simp [h]

lemma baseList_takes (hscope : scope.Named decls) {bases : List PlanType} (hne : bases ≠ [])
    (hfits : ∀ type ∈ bases, type.fits scope = true)
    (hdepth : (commas (PlanType.spelling decls scope) bases).length ≤ depth) :
    Takes (Reader.baseList (grammar depth)) ([.mark ":"] ++ commas (PlanType.spelling decls scope) bases) EndsBases
      fun _ found => found = bases.map (PlanType.tree decls scope) := by
  have htake : ∀ type ∈ bases, Takes (Reader.baseEntry (grammar depth)) (type.spelling decls scope)
      (fun next => EndsType next ∧ next ≠ some (.mark "(")) fun _ found => found = [type.tree decls scope] :=
    fun type htype =>
      baseEntry_takes hscope (hfits type htype) (Nat.le_trans (length_le_length_commas htype) hdepth)
  obtain ⟨first, rest, rfl⟩ := List.exists_cons_of_ne_nil hne
  refine (mark_takes ":").andThen fun _ _ _ => ?_
  have hcomma : EndsType (some (.mark ",")) ∧ some (Lexeme.mark ",") ≠ some (.mark "(") :=
    ⟨endsType_mark (by decide), by decide⟩
  refine (TakesTo.commaList1 htake hcomma fun _ hnext => ⟨⟨hnext.1.1, hnext.2⟩, hnext.1.2⟩).bind_pure ?_
  intro _ entries hentries
  rw [eq_map_of_forall₂ hentries, ← List.flatMap_def, ← List.map_eq_flatMap]

/-! Headers. -/

section Header

variable {d : PlanDecl} {part : List Lexeme × HeaderPart} {hasParams : Bool}

/-- What the header of a declaration is made of can be written. -/
def PlanDecl.HeaderFits (scope : PlanScope) (d : PlanDecl) : Prop :=
  (∀ param ∈ d.generics, isPlainName param.name = true ∧ ∀ type ∈ param.constraints, type.fitsBase scope = true) ∧
    ∀ type ∈ d.bases, type.fitsBase scope = true

lemma PlanDecl.Fits.header {arities : List Nat} (h : d.Fits arities) : d.HeaderFits (d.scope arities) :=
  ⟨h.generics.2.2, h.bases⟩

def AfterPart (part : List Lexeme × HeaderPart) (next : Option Lexeme) : Prop :=
  (∃ names, part.2 = .typeParams names) ∨ EndsBases next

lemma mem_nameParts (h : part ∈ d.nameParts) :
    d.generics ≠ [] ∧ part = (PlanParam.names d.generics, .typeParams d.typeParams) := by
  unfold PlanDecl.nameParts at h
  split at h
  · cases h
  · rename_i hne
    exact ⟨by simpa using hne, List.mem_singleton.mp h⟩

lemma mem_tailParts (h : part ∈ d.tailParts decls) :
    (d.bases ≠ [] ∧ part = ([.mark ":"] ++ commas (PlanType.spelling decls (d.scope (decls.map PlanDecl.arity))) d.bases,
        .bases (d.bases.map (PlanType.tree decls (d.scope (decls.map PlanDecl.arity)))))) ∨
      ∃ param ∈ d.generics, param.constraints ≠ [] ∧
        part = (param.spelling decls (d.scope (decls.map PlanDecl.arity)),
          .constraints (param.clause decls (d.scope (decls.map PlanDecl.arity)))) := by
  rcases List.mem_append.mp h with hbases | hclause
  · split at hbases
    · cases hbases
    · rename_i hne
      exact .inl ⟨by simpa using hne, List.mem_singleton.mp hbases⟩
  · obtain ⟨param, hparam, rfl⟩ := List.mem_map.mp hclause
    obtain ⟨hmem, hne⟩ := List.mem_filter.mp hparam
    exact .inr ⟨param, hmem, by simpa using hne, rfl⟩

/-- Where neither names nor bases begin, constraints are read. -/
lemma headerPart_clause {s : List Lexeme} {clause : ConstraintTree}
    (hnext : ∀ next, F next → ∃ word, upcoming s next = some (.word word))
    (h : Takes (Reader.constraints g) s F fun _ found => found = clause) :
    Takes (headerPart g hasParams) s F fun _ found => found = .constraints clause := by
  have hpass : ∀ text, Takes (atMark text) [] (fun next => ∃ word, next = some (.word word)) fun _ found => found = false := by
    intro text
    apply atMark_passes
    rintro _ ⟨word, rfl⟩
    simp
  refine (hpass "<").look_eq ?_ hnext
  refine (hpass ":").look_eq ?_ hnext
  refine (hpass "(").look_eq ?_ hnext
  exact h.bind_pure fun _ _ hclause => by rw [hclause]

lemma headerPart_names (hne : generics ≠ []) (hnames : ∀ param ∈ generics, isPlainName param.name = true)
    : Takes (headerPart g hasParams) (PlanParam.names generics) F fun _ found =>
      found = .typeParams (generics.map PlanParam.name) := by
  refine (atMark_finds "<").look_eq ?_ fun next _ => ?_
  · exact (typeParams_takes hne hnames).bind_pure fun _ _ hfound => by rw [hfound]
  · rw [PlanParam.names, angled_map hne]
    rfl

lemma headerPart_takes (hscope : (d.scope (decls.map PlanDecl.arity)).Named decls)
    (hfits : d.HeaderFits (d.scope (decls.map PlanDecl.arity))) (hdepth : (d.headerSpelling decls).length ≤ depth)
    (hasParams : Bool) (hpart : part ∈ d.headerParts decls) :
    Takes (headerPart (grammar depth) hasParams) part.1 (AfterPart part) fun _ found => found = part.2 := by
  have hle : part.1.length ≤ depth :=
    Nat.le_trans (List.sublist_flatten_of_mem (List.mem_map_of_mem hpart)).length_le hdepth
  rcases List.mem_append.mp hpart with hname | htail
  · obtain ⟨hne, rfl⟩ := mem_nameParts hname
    exact headerPart_names hne fun param hparam => (hfits.1 param hparam).1
  · rcases mem_tailParts htail with ⟨hne, rfl⟩ | ⟨param, hparam, hne, rfl⟩
    · have hread : Takes (baseList (grammar depth)) _ EndsBases _ := baseList_takes hscope hne
        (fun type htype => PlanType.fits_of_fitsBase (hfits.2 type htype)) (by
          rw [List.length_append] at hle
          exact Nat.le_trans (Nat.le_add_left _ _) hle)
      refine (atMark_other (show "<" ≠ ":" by decide)).look_eq ?_ fun _ _ => rfl
      refine (atMark_finds ":").look_eq ?_ fun _ _ => rfl
      refine (hread.follow ?_).bind_pure fun _ _ htypes => by rw [htypes]
      rintro _ (⟨_, hnames⟩ | hnext)
      · cases hnames
      · exact hnext
    · refine headerPart_clause (fun next _ => ⟨"where", rfl⟩) ?_
      refine (constraints_take hscope hne (hfits.1 param hparam).2 hle).follow ?_
      rintro _ (⟨_, hnames⟩ | hnext)
      · cases hnames
      · exact hnext.1

lemma pairwise_headerParts (decls : List PlanDecl) (d : PlanDecl) :
    (d.headerParts decls).Pairwise fun first second => AfterPart first second.1.head? := by
  have hnames : ∀ part ∈ d.nameParts, ∃ names, part.2 = .typeParams names := by
    intro part hpart
    obtain ⟨-, rfl⟩ := mem_nameParts hpart
    exact ⟨d.typeParams, rfl⟩
  refine List.pairwise_append.mpr ⟨?_, ?_, fun part hpart _ _ => .inl (hnames part hpart)⟩
  · exact List.pairwise_iff_forall_sublist.mpr fun hsub => .inl (hnames _ (hsub.subset (by simp)))
  · refine List.pairwise_iff_forall_sublist.mpr fun {_ second} hsub => .inr ?_
    have hsecond : second ∈ d.tailParts decls := hsub.subset (by simp)
    rcases mem_tailParts hsecond with ⟨-, rfl⟩ | ⟨param, -, -, rfl⟩
    · exact endsBases_mark (by decide)
    · exact endsBases_word "where"

lemma headerPart_ne_nil (hpart : part ∈ d.headerParts decls) : part.1 ≠ [] := by
  rcases List.mem_append.mp hpart with hname | htail
  · obtain ⟨hne, rfl⟩ := mem_nameParts hname
    dsimp only
    rw [PlanParam.names, angled_map hne]
    simp
  · rcases mem_tailParts htail with ⟨-, rfl⟩ | ⟨param, -, -, rfl⟩ <;> simp [PlanParam.spelling]

lemma headerPart_refuses (g : Grammar) (hasParams : Bool) :
    Refuses (headerPart g hasParams) [] (· = some (.mark "\x7b")) := by
  refine (atMark_other (show "<" ≠ "\x7b" by decide)).look_refuse_eq ?_
  refine (atMark_other (show ":" ≠ "\x7b" by decide)).look_refuse_eq ?_
  refine (atMark_other (show "(" ≠ "\x7b" by decide)).look_refuse_eq ?_
  refine Refuses.bind (Refuses.bind (keyword_refuses ?_))
  rintro _ rfl
  decide

lemma header_takes (hscope : (d.scope (decls.map PlanDecl.arity)).Named decls)
    (hfits : d.HeaderFits (d.scope (decls.map PlanDecl.arity))) (hdepth : (d.headerSpelling decls).length ≤ depth)
    (hasParams : Bool) :
    Takes (many (headerPart (grammar depth) hasParams)) (d.headerSpelling decls) (· = some (.mark "\x7b")) fun _ found =>
      found = (d.headerParts decls).map Prod.snd := by
  have hmany := TakesTo.many_each (G := (· = some (.mark "\x7b")))
    (fun part hpart => headerPart_takes hscope hfits hdepth hasParams hpart) (fun _ => headerPart_ne_nil)
    (pairwise_headerParts decls d) ?_ (headerPart_refuses (grammar depth) hasParams)
  · exact hmany.imp fun _ _ hfound => eq_map_of_forall₂ hfound
  · rintro _ _ _ rfl
    exact .inr (endsBases_mark (by decide))

/-! What is looked for in a header is found there. -/

lemma names_headerParts (decls : List PlanDecl) (d : PlanDecl) :
    HeaderPart.names ((d.headerParts decls).map Prod.snd) = d.typeParams := by
  unfold HeaderPart.names
  rw [List.findSome?_map, PlanDecl.headerParts, List.findSome?_append,
    (List.findSome?_eq_none_iff (l := d.tailParts decls)).mpr ?_, Option.or_none]
  · unfold PlanDecl.nameParts
    split
    · rename_i hgenerics
      rw [PlanDecl.typeParams, List.isEmpty_iff.mp hgenerics]
      rfl
    · rfl
  · intro part hpart
    rcases mem_tailParts hpart with ⟨-, rfl⟩ | ⟨_, -, -, rfl⟩ <;> rfl

lemma baseTypes_headerParts (decls : List PlanDecl) (d : PlanDecl) :
    HeaderPart.baseTypes ((d.headerParts decls).map Prod.snd) =
      d.bases.map (PlanType.tree decls (d.scope (decls.map PlanDecl.arity))) := by
  unfold HeaderPart.baseTypes
  rw [List.findSome?_map, PlanDecl.headerParts, List.findSome?_append,
    (List.findSome?_eq_none_iff (l := d.nameParts)).mpr ?_, Option.none_or]
  · unfold PlanDecl.tailParts
    dsimp only
    split
    · rename_i hbases
      rw [List.nil_append, List.findSome?_map, List.isEmpty_iff.mp hbases, List.findSome?_eq_none_iff.mpr ?_]
      · rfl
      · exact fun _ _ => rfl
    · rfl
  · intro part hpart
    obtain ⟨-, rfl⟩ := mem_nameParts hpart
    rfl

lemma clauses_headerParts (decls : List PlanDecl) (d : PlanDecl) :
    HeaderPart.clauses ((d.headerParts decls).map Prod.snd) =
      (PlanParam.constrained d.generics).map (PlanParam.clause decls (d.scope (decls.map PlanDecl.arity))) := by
  unfold HeaderPart.clauses
  rw [List.filterMap_map, PlanDecl.headerParts, List.filterMap_append,
    (List.filterMap_eq_nil_iff (l := d.nameParts)).mpr ?_, List.nil_append]
  · unfold PlanDecl.tailParts
    dsimp only
    rw [List.filterMap_append, List.filterMap_eq_nil_iff.mpr ?_, List.nil_append, List.filterMap_map]
    · exact congrFun List.filterMap_eq_map _
    · intro part hpart
      split at hpart
      · cases hpart
      · obtain rfl := List.mem_singleton.mp hpart
        rfl
  · intro part hpart
    obtain ⟨-, rfl⟩ := mem_nameParts hpart
    rfl

end Header

end TypeAtlas
