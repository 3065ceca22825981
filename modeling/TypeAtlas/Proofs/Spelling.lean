import TypeAtlas.Proofs.PlainNames
import TypeAtlas.Proofs.Reading

/-!
How the declarations of a plan are written. A spelling is a list of tokens without their
places; every reference in it is written with its full name. Beside each spelling stands the
tree that reading it has to give.
-/

namespace TypeAtlas

open Source Source.Reader

variable {parts : List String} {ι : Type}
  {cs : List Char} {tokens : List Token} {items : List ι} {name : String} {spell : ι → List Lexeme}

def dotPart (part : String) : List Lexeme := [.mark ".", .word part]

/-- A name with dots. -/
def pathSpelling : List String → List Lexeme
  | [] => []
  | part :: parts => .word part :: parts.flatMap dotPart

lemma pathSpelling_append (h : parts ≠ []) (more : List String) :
    pathSpelling (parts ++ more) = pathSpelling parts ++ more.flatMap dotPart := by
  obtain ⟨first, parts, rfl⟩ := List.exists_cons_of_ne_nil h
  rw [List.cons_append, pathSpelling, pathSpelling, List.flatMap_append]
  rfl

/-- Spellings in angle brackets with commas between them, nothing where there are none. -/
def angled : List (List Lexeme) → List Lexeme
  | [] => []
  | first :: rest => .mark "<" :: commas id (first :: rest) ++ [.mark ">"]

lemma angled_map (h : items ≠ []) (spell : ι → List Lexeme) :
    angled (items.map spell) = [.mark "<"] ++ (commas spell items ++ [.mark ">"]) := by
  obtain ⟨i, items, rfl⟩ := List.exists_cons_of_ne_nil h
  have hcommas := commas_map id spell (i :: items)
  rw [List.map_cons] at hcommas
  rw [List.map_cons, angled, hcommas]
  rfl

/-- The brackets of an array. -/
def bracketSpelling (rank : Nat) : List Lexeme :=
  .mark "[" :: List.replicate (rank - 1) (.mark ",") ++ [.mark "]"]

/-- The name of a declaration with its namespace, part by part. -/
def PlanDecl.path (d : PlanDecl) : List String := d.spaces ++ [d.name]

namespace PlanType

/-- The ranks of an array in the order they are written, the outermost first. -/
def ranks : PlanType → List Nat
  | .array element rank => rank :: element.ranks
  | .builtin _ | .nullable _ | .param .. | .declared .. => []

def paramName (scope : PlanScope) (owner : ParamOwner) (place : Nat) : String :=
  match owner with
  | .type => scope.typeParams.getD place ""
  | .method => scope.methodParams.getD place ""

variable (decls : List PlanDecl) (scope : PlanScope)

mutual

/-- A type without the brackets of arrays. -/
def stem : PlanType → List Lexeme
  | .builtin type => [.word type.keyword]
  | .nullable type => [.word type.keyword, .mark "?"]
  | .param owner place => [.word (paramName scope owner place)]
  | .declared place args =>
    pathSpelling ((decls[place]?.map PlanDecl.path).getD []) ++ angled (spellEach args)
  | .array element _ => stem element

def spellEach : List PlanType → List (List Lexeme)
  | [] => []
  | type :: types => (stem type ++ type.ranks.flatMap bracketSpelling) :: spellEach types

end

/-- A type as it is written. -/
def spelling (type : PlanType) : List Lexeme := type.stem decls scope ++ type.ranks.flatMap bracketSpelling

lemma spellEach_eq_map (types : List PlanType) :
    spellEach decls scope types = types.map (spelling decls scope) := by
  induction types with
  | nil => rfl
  | cons type types ih => rw [spellEach, ih, List.map_cons, spelling]

/-- A name with its arguments, if there are any. -/
def nameTree (name : String) : List TypeTree → TypeTree
  | [] => .simple name
  | args => .generic name args

mutual

/-- What is read of a type without its brackets. -/
def stemTree : PlanType → TypeTree
  | .builtin type => .builtin type
  | .nullable type => .wrapped (.builtin type)
  | .param owner place => .simple (paramName scope owner place)
  | .declared place args =>
    match decls[place]? with
    | some d => .qualified d.ns (nameTree d.name (treeEach args))
    | none => .tuple []
  | .array element _ => stemTree element

def treeEach : List PlanType → List TypeTree
  | [] => []
  | type :: types => type.ranks.foldl .array (stemTree type) :: treeEach types

end

/-- What is read of a type. -/
def tree (type : PlanType) : TypeTree := type.ranks.foldl .array (type.stemTree decls scope)

lemma treeEach_eq_map (types : List PlanType) : treeEach decls scope types = types.map (tree decls scope) := by
  induction types with
  | nil => rfl
  | cons type types ih => rw [treeEach, ih, List.map_cons, tree]

end PlanType

def PlanParam.constrained (generics : List PlanParam) : List PlanParam :=
  generics.filter fun param => !param.constraints.isEmpty

def PlanParam.spelling (decls : List PlanDecl) (scope : PlanScope) (param : PlanParam) : List Lexeme :=
  .word "where" :: .word param.name :: .mark ":" :: commas (PlanType.spelling decls scope) param.constraints

def PlanParam.clause (decls : List PlanDecl) (scope : PlanScope) (param : PlanParam) : ConstraintTree :=
  ⟨param.name, param.constraints.map (PlanType.tree decls scope)⟩

def PlanParam.names (generics : List PlanParam) : List Lexeme :=
  angled (generics.map fun param => [.word param.name])

/-- A parameter of a method. -/
def paramSpelling (decls : List PlanDecl) (scope : PlanScope) (param : String × PlanType) : List Lexeme :=
  param.2.spelling decls scope ++ [.word param.1]

/-- The accessors of a property. -/
def accessorWords (getter setter : Bool) : List String :=
  (if getter then ["get"] else []) ++ if setter then ["set"] else []

def PlanMember.spelling (decls : List PlanDecl) (scope : PlanScope) : PlanMember → List Lexeme
  | .property name type getter setter =>
    type.spelling decls scope ++ .word name :: .mark "\x7b" ::
      (accessorWords getter setter).flatMap (fun word => [.word word, .mark ";"]) ++ [.mark "\x7d"]
  | .method name generics returns params =>
    let scope := scope.inMethod generics
    returns.spelling decls scope ++ .word name :: PlanParam.names generics ++ .mark "(" ::
      commas (paramSpelling decls scope) params ++ .mark ")" ::
      (PlanParam.constrained generics).flatMap (PlanParam.spelling decls scope) ++ [.mark ";"]

namespace PlanDecl

variable (decls : List PlanDecl) (d : PlanDecl)

/-- The names of the generic parameters as they are written and as they are read. -/
def nameParts : List (List Lexeme × HeaderPart) :=
  if d.generics.isEmpty then [] else [(PlanParam.names d.generics, .typeParams d.typeParams)]

/-- The bases and the constraints as they are written and as they are read. -/
def tailParts : List (List Lexeme × HeaderPart) :=
  let scope := d.scope (decls.map PlanDecl.arity)
  (if d.bases.isEmpty then []
    else [([.mark ":"] ++ commas (PlanType.spelling decls scope) d.bases,
      .bases (d.bases.map (PlanType.tree decls scope)))]) ++
    (PlanParam.constrained d.generics).map fun param =>
      (param.spelling decls scope, .constraints (param.clause decls scope))

def headerParts : List (List Lexeme × HeaderPart) := d.nameParts ++ d.tailParts decls

/-- What stands between the name of a type and its members. -/
def headerSpelling : List Lexeme := (d.headerParts decls).flatMap Prod.fst

def spelling : List Lexeme :=
  .word d.kind.word :: .word d.name :: d.headerSpelling decls ++ .mark "\x7b" ::
    d.members.flatMap (PlanMember.spelling decls (d.scope (decls.map PlanDecl.arity))) ++ [.mark "\x7d"]

/-- A declaration in its namespace. -/
def placedSpelling : List Lexeme :=
  .word "namespace" :: pathSpelling d.spaces ++ .mark "\x7b" :: d.spelling decls ++ [.mark "\x7d"]

end PlanDecl

/-- All declarations of a plan, one behind the other. -/
def Plan.spelling (plan : Plan) : List Lexeme := plan.decls.flatMap (PlanDecl.placedSpelling plan.decls)

/-! The text of names. -/

lemma isBlank_eq_false {c : Char} (h : Text.isNamePart c = true) : Text.isBlank c = false := by
  have hall : ∀ code ∈ Text.blankCodes, Text.isNamePart (Char.ofNat code) = false := by decide +kernel
  rw [Bool.eq_false_iff]
  intro hblank
  have hmem : c.toNat ∈ Text.blankCodes := by simpa [Text.isBlank] using hblank
  have hpart := hall c.toNat hmem
  rw [Char.ofNat_toNat, h] at hpart
  cases hpart

lemma compact_eq_self (h : ∀ c ∈ cs, Text.isBlank c = false) : Text.compact cs = cs := by
  rw [Text.compact, List.filter_eq_self]
  intro c hc
  rw [h c hc]
  rfl

lemma compact_eq_nil (h : ∀ c ∈ cs, Text.isBlank c = true) : Text.compact cs = [] := by
  rw [Text.compact, List.filter_eq_nil_iff]
  intro c hc
  rw [h c hc]
  exact Bool.false_ne_true

/-- Without blanks, the text behind some tokens is what they spell. -/
lemma compact_textOf (hplain : Plain tokens)
    (htexts : ∀ token ∈ tokens, ∀ c ∈ token.text.toList, Text.isBlank c = false) :
    Text.compact (textOf tokens).toList = tokens.flatMap (·.text.toList) := by
  cases tokens with
  | nil => rfl
  | cons first rest =>
    have hrest : ∀ tokens : List Token, (∀ token ∈ tokens, token ∈ rest) →
        Text.compact (String.join (tokens.map fun token => token.gap ++ token.text)).toList =
          tokens.flatMap (·.text.toList) := by
      intro tokens hsub
      induction tokens with
      | nil => rfl
      | cons token tokens ih =>
        have hmem : token ∈ first :: rest := List.mem_cons_of_mem first (hsub token List.mem_cons_self)
        rw [List.map_cons, String.join_cons, String.toList_append, String.toList_append, Text.compact_append,
          Text.compact_append, compact_eq_nil (hplain.blank token hmem), compact_eq_self (htexts token hmem),
          ih (List.forall_mem_cons.mp hsub).2]
        rfl
    rw [textOf, String.toList_append, Text.compact_append, hrest rest fun _ h => h,
      compact_eq_self (htexts first List.mem_cons_self)]
    rfl

lemma pathSpelling_text (parts : List String) :
    (pathSpelling parts).flatMap (·.text.toList) = (Text.joinWith "." parts).toList := by
  induction parts with
  | nil => rfl
  | cons first rest ih =>
    cases rest with
    | nil => simp [pathSpelling, Text.joinWith]
    | cons second rest =>
      rw [Text.joinWith, String.toList_append, String.toList_append, ← ih]
      · simp [pathSpelling, dotPart]
      · exact fun heq => by cases heq

lemma mem_pathSpelling {lexeme : Lexeme} (h : lexeme ∈ pathSpelling parts) :
    lexeme = .mark "." ∨ ∃ part ∈ parts, lexeme = .word part := by
  cases parts with
  | nil => cases h
  | cons first rest =>
    rcases List.mem_cons.mp h with rfl | h
    · exact .inr ⟨first, List.mem_cons_self, rfl⟩
    · obtain ⟨part, hpart, hmem⟩ := List.mem_flatMap.mp h
      rcases List.mem_cons.mp hmem with rfl | hmem
      · exact .inl rfl
      · exact .inr ⟨part, List.mem_cons_of_mem first hpart, List.mem_singleton.mp hmem⟩

/-- The text behind a dotted name is that name, however it is spaced. -/
lemma cleanName_textOf (hplain : Plain tokens) (hparts : ∀ part ∈ parts, isIdentifier part = true)
    (hspelling : tokens.map Token.lexeme = pathSpelling parts) :
    cleanName (textOf tokens) = Text.joinWith "." parts := by
  have htexts : ∀ token ∈ tokens, ∀ c ∈ token.text.toList, c = '.' ∨ c = '@' ∨ Text.isNamePart c = true := by
    intro token htoken c hc
    have hmem : token.lexeme ∈ pathSpelling parts := by
      rw [← hspelling]
      exact List.mem_map_of_mem htoken
    rcases mem_pathSpelling hmem with hdot | ⟨part, hpart, hword⟩
    · rw [show token.text = "." from congrArg Lexeme.text hdot] at hc
      exact .inl (List.mem_singleton.mp hc)
    · rw [show token.text = part from congrArg Lexeme.text hword] at hc
      exact .inr (mem_identifier (hparts part hpart) hc)
  have hcompact : Text.compact (textOf tokens).toList = (Text.joinWith "." parts).toList := by
    rw [compact_textOf hplain, ← pathSpelling_text, ← hspelling, List.flatMap_map]
    · rfl
    · intro token htoken c hc
      rcases htexts token htoken c hc with rfl | rfl | hpart
      · decide
      · decide
      · exact isBlank_eq_false hpart
  have hglobal : "global::".toList.isPrefixOf (Text.joinWith "." parts).toList = false := by
    rw [Bool.eq_false_iff, Ne, List.isPrefixOf_iff_prefix]
    intro hbegins
    have hcolon : ':' ∈ (Text.joinWith "." parts).toList := hbegins.subset (by decide)
    rcases Text.mem_joinWith hcolon with hgap | ⟨part, hpart, hmem⟩
    · revert hgap
      decide
    · exact absurd (mem_identifier (hparts part hpart) hmem) (by decide)
  unfold cleanName
  dsimp only
  rw [hcompact, hglobal]
  exact String.ofList_toList

/-! What of a spelling is one token when it stands alone. -/

/-- Marks of which none begins a comment or a literal. -/
def Source.plainMarks : List Char := ".<>,[]?\x7b\x7d;():".toList

/-- Whether a lexeme is one token when it stands alone. -/
def Source.Lexeme.isLexical (lexeme : Lexeme) : Bool :=
  match lexeme.kind, lexeme.text.toList with
  | .word, '@' :: c :: cs | .word, c :: cs => Text.isNameStart c && cs.all Text.isNamePart
  | .mark, [c] => plainMarks.contains c
  | _, _ => false

def Lexical (spelling : List Lexeme) : Prop := ∀ lexeme ∈ spelling, lexeme.isLexical = true

@[simp] lemma lexical_nil : Lexical [] := nofun

@[simp] lemma lexical_cons {lexeme : Lexeme} {spelling : List Lexeme} :
    Lexical (lexeme :: spelling) ↔ lexeme.isLexical = true ∧ Lexical spelling := List.forall_mem_cons

@[simp] lemma lexical_append {spelling more : List Lexeme} :
    Lexical (spelling ++ more) ↔ Lexical spelling ∧ Lexical more := List.forall_mem_append

lemma lexical_flatMap (h : ∀ i ∈ items, Lexical (spell i)) : Lexical (items.flatMap spell) := by
  intro lexeme hlexeme
  obtain ⟨i, hi, hmem⟩ := List.mem_flatMap.mp hlexeme
  exact h i hi lexeme hmem

lemma lexical_commas (h : ∀ i ∈ items, Lexical (spell i)) : Lexical (commas spell items) := by
  cases items with
  | nil => exact lexical_nil
  | cons i items =>
    refine lexical_append.mpr ⟨h i List.mem_cons_self, lexical_flatMap fun j hj => ?_⟩
    exact lexical_cons.mpr ⟨by decide, h j (List.mem_cons_of_mem i hj)⟩

lemma lexical_angled {spellings : List (List Lexeme)} (h : ∀ spelling ∈ spellings, Lexical spelling) :
    Lexical (angled spellings) := by
  cases spellings with
  | nil => exact lexical_nil
  | cons first rest =>
    refine lexical_cons.mpr ⟨by decide, lexical_append.mpr ⟨lexical_commas h, ?_⟩⟩
    exact lexical_cons.mpr ⟨by decide, lexical_nil⟩

lemma isLexical_identifier (h : isIdentifier name = true) : (Lexeme.word name).isLexical = true := by
  rcases isIdentifier_cases h with hplain | ⟨c, cs, hname, hstart, hparts⟩
  · obtain ⟨c, cs, hname, hstart, hparts, -⟩ := isPlainName_iff.mp hplain
    have hat : c ≠ '@' := by
      rintro rfl
      revert hstart
      decide +kernel
    unfold Lexeme.isLexical
    split
    · rename_i heq
      exact absurd (List.cons.inj (hname.symm.trans heq)).1 hat
    · rename_i heq
      obtain ⟨rfl, rfl⟩ := List.cons.inj (hname.symm.trans heq)
      rw [hstart, Bool.true_and, List.all_eq_true]
      exact hparts
    · rename_i heq _
      cases heq
    · exact absurd hname (by simp_all)
  · simp only [Lexeme.isLexical, hname, hstart, Bool.true_and, List.all_eq_true]
    exact hparts

lemma isLexical_word (h : isPlainName name = true) : (Lexeme.word name).isLexical = true :=
  isLexical_identifier (isIdentifier_of_isPlainName h)

lemma lexical_word (h : isPlainName name = true) : Lexical [.word name] :=
  lexical_cons.mpr ⟨isLexical_word h, lexical_nil⟩

lemma lexical_path (h : ∀ part ∈ parts, isIdentifier part = true) : Lexical (pathSpelling parts) := by
  intro lexeme hlexeme
  rcases mem_pathSpelling hlexeme with rfl | ⟨part, hpart, rfl⟩
  · decide
  · exact isLexical_identifier (h part hpart)

lemma lexical_brackets (ranks : List Nat) : Lexical (ranks.flatMap bracketSpelling) := by
  refine lexical_flatMap fun rank _ => lexical_cons.mpr ⟨by decide, lexical_append.mpr ⟨?_, ?_⟩⟩
  · intro lexeme hlexeme
    rw [List.eq_of_mem_replicate hlexeme]
    decide
  · exact lexical_cons.mpr ⟨by decide, lexical_nil⟩

lemma isLexical_keyword (b : Builtin) : (Lexeme.word b.keyword).isLexical = true := by cases b <;> decide

end TypeAtlas
