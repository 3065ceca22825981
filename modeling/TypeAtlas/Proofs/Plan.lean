import Mathlib.Tactic.Lemma
import TypeAtlas.Declaration

/-!
Declarations in the abstract. A plan says what some types are called, what they extend and
which members they have, and nothing about where they are written down. It can be written as
source and it can be built into a module; `PlanDecl.shape` is the shape that a declaration
has to get either way.
-/

namespace TypeAtlas

variable {args : List PlanType} {place : Nat} {plan : Plan}

/-- A type in a plan. Declarations are meant by their place in the plan, parameters by their
place among those of their owner. -/
inductive PlanType where
  | builtin (type : Builtin)
  | nullable (type : Builtin)
  | param (owner : ParamOwner) (place : Nat)
  | declared (place : Nat) (args : List PlanType)
  | array (element : PlanType) (rank : Nat)

structure PlanParam where
  name : String
  constraints : List PlanType

inductive PlanMember where
  | property (name : String) (type : PlanType) (getter setter : Bool)
  | method (name : String) (generics : List PlanParam) (returns : PlanType)
      (params : List (String × PlanType))

structure PlanDecl where
  kind : Kind
  /-- The parts of the namespace, the outermost first. -/
  spaces : List String
  name : String
  generics : List PlanParam
  bases : List PlanType
  members : List PlanMember

namespace PlanDecl

variable (d : PlanDecl)

def ns : String := Text.joinWith "." d.spaces

def fullName : String := qualify d.ns d.name

def arity : Nat := d.generics.length

def typeParams : List String := d.generics.map PlanParam.name

end PlanDecl

/-- What a type in a plan can refer to: declarations with so many parameters, and the
parameters of the type and the method around it. -/
structure PlanScope where
  arities : List Nat
  typeParams : List String
  methodParams : List String := []

/-! What types are used as. -/

namespace PlanType

mutual

/-- The use a type stands for, where `ids` numbers the declarations. -/
def use (ids : Nat → DeclId) (scope : PlanScope) : PlanType → Use
  | .builtin type | .nullable type => .builtin type none
  | .param .type place => .param (scope.typeParams.getD place "") place .type none
  | .param .method place => .param (scope.methodParams.getD place "") place .method none
  | .declared place args => .declared (ids place) (useEach ids scope args) none
  | .array element rank => (use ids scope element).wrapRank rank

def useEach (ids : Nat → DeclId) (scope : PlanScope) : List PlanType → List Use
  | [] => []
  | type :: types => use ids scope type :: useEach ids scope types

end

end PlanType

def Source.Handle.nowhere : Source.Handle := .synthesized .attributeNode ""

def PlanParam.generic (ids : Nat → DeclId) (scope : PlanScope) (param : PlanParam) : GenericParam :=
  ⟨param.name, param.constraints.map (PlanType.use ids scope)⟩

def PlanScope.inMethod (scope : PlanScope) (generics : List PlanParam) : PlanScope :=
  { scope with methodParams := generics.map PlanParam.name }

def PlanMember.member (ids : Nat → DeclId) (scope : PlanScope) : PlanMember → Member
  | .property name type getter setter =>
    .property ⟨name, type.use ids scope, getter, setter, [], .nowhere⟩
  | .method name generics returns params =>
    let scope := scope.inMethod generics
    .method
      { name
        returns := returns.use ids scope
        params := params.map fun (name, type) => ⟨name, type.use ids scope⟩
        generics := generics.map (PlanParam.generic ids scope)
        attributes := []
        handle := .nowhere }

/-- The scope inside a declaration. -/
def PlanDecl.scope (arities : List Nat) (d : PlanDecl) : PlanScope := ⟨arities, d.typeParams, []⟩

/-- The shape of a planned declaration. -/
def PlanDecl.shape (ids : Nat → DeclId) (arities : List Nat) (d : PlanDecl) : Shape where
  generics := d.generics.map (PlanParam.generic ids (d.scope arities))
  bases := d.bases.map (PlanType.use ids (d.scope arities))
  members := d.members.map (PlanMember.member ids (d.scope arities))

/-! Shapes without the places they were read from. -/

def Attribute.unplaced (a : Attribute) : Attribute := { a with handle := .nowhere }

def Member.unplaced : Member → Member
  | .property p =>
    .property { p with attributes := p.attributes.map Attribute.unplaced, handle := .nowhere }
  | .method m =>
    .method { m with attributes := m.attributes.map Attribute.unplaced, handle := .nowhere }

/-- A shape without the handles in it. -/
def Shape.unplaced (shape : Shape) : Shape :=
  { shape with
    members := shape.members.map Member.unplaced
    attributes := shape.attributes.map Attribute.unplaced }

/-! What makes a plan well-formed. -/

/-- Words that are no names: the keywords, and words that some place reads as one. -/
def keywords : List String :=
  ["abstract", "as", "async", "base", "bool", "break", "byte", "case", "catch", "char", "checked", "class",
    "const", "continue", "decimal", "default", "delegate", "do", "double", "else", "enum", "event", "explicit",
    "extern", "false", "file", "finally", "fixed", "float", "for", "foreach", "goto", "if", "implicit", "in",
    "int", "interface", "internal", "is", "lock", "long", "namespace", "new", "nint", "nuint", "null", "object",
    "operator", "out", "override", "params", "partial", "private", "protected", "public", "readonly", "record",
    "ref", "required", "return", "sbyte", "scoped", "sealed", "short", "sizeof", "stackalloc", "static",
    "string", "struct", "switch", "this", "throw", "true", "try", "typeof", "uint", "ulong", "unchecked",
    "unsafe", "ushort", "using", "var", "virtual", "void", "volatile", "while"]

/-- A word that can name something. -/
def isPlainName (name : String) : Bool :=
  match name.toList with
  | [] => false
  | c :: cs => Text.isNameStart c && cs.all Text.isNamePart && !keywords.contains name

/-- Builtin types that can be made nullable. -/
def Builtin.isValue (type : Builtin) : Bool := type ≠ .object && type ≠ .string && type ≠ .void

namespace PlanType

variable {scope : PlanScope} {types : List PlanType} {type : PlanType}

def isDeclared : PlanType → Bool
  | .declared .. => true
  | _ => false

mutual

/-- Whether a type stands for a value and refers to nothing that is out of scope. A parameter of
the type is hidden by one of the method that has its name. -/
def fits (scope : PlanScope) : PlanType → Bool
  | .builtin type => type ≠ .void
  | .nullable type => type.isValue
  | .param .type place =>
    (scope.typeParams[place]?).any fun name => !scope.methodParams.contains name
  | .param .method place => place < scope.methodParams.length
  | .declared place args => scope.arities[place]? == some args.length && fitsEach scope args
  | .array element rank => rank ≠ 0 && fits scope element

def fitsEach (scope : PlanScope) : List PlanType → Bool
  | [] => true
  | type :: types => fits scope type && fitsEach scope types

end

lemma fitsEach_iff : fitsEach scope types = true ↔ ∀ type ∈ types, type.fits scope = true := by
  induction types with
  | nil => simp [fitsEach]
  | cons type types ih => simp [fitsEach, ih]

/-- Whether a method can return a type: nothing, or a value. -/
def fitsReturn (scope : PlanScope) : PlanType → Bool
  | .builtin .void => true
  | type => type.fits scope

lemma fitsReturn_cases (h : type.fitsReturn scope = true) : type = .builtin .void ∨ type.fits scope = true := by
  unfold fitsReturn at h
  split at h
  · exact .inl rfl
  · exact .inr h

/-- A declaration that is meant stands in the plan and gets an argument for each parameter. -/
lemma fits_declared (h : (PlanType.declared place args).fits scope = true) :
    scope.arities[place]? = some args.length ∧ fitsEach scope args = true := by
  rwa [fits, Bool.and_eq_true, beq_iff_eq] at h

mutual

/-- Whether a type refers to nothing that is out of scope. Unlike a type that fits, it may be
made of `void` anywhere. -/
def inScope (scope : PlanScope) : PlanType → Bool
  | .builtin _ => true
  | .nullable type => type.isValue
  | .param .type place =>
    (scope.typeParams[place]?).any fun name => !scope.methodParams.contains name
  | .param .method place => place < scope.methodParams.length
  | .declared place args => scope.arities[place]? == some args.length && inScopeEach scope args
  | .array element rank => rank ≠ 0 && inScope scope element

def inScopeEach (scope : PlanScope) : List PlanType → Bool
  | [] => true
  | type :: types => inScope scope type && inScopeEach scope types

end

lemma inScopeEach_iff : inScopeEach scope types = true ↔ ∀ type ∈ types, type.inScope scope = true := by
  induction types with
  | nil => simp [inScopeEach]
  | cons type types ih => simp [inScopeEach, ih]

mutual

lemma inScope_of_fits {scope : PlanScope} : ∀ {type : PlanType}, type.fits scope = true →
    type.inScope scope = true
  | .builtin _, _ => rfl
  | .nullable _, h => h
  | .param .type _, h => h
  | .param .method _, h => h
  | .declared place args, h => by
    obtain ⟨hplace, hargs⟩ := fits_declared h
    rw [inScope, hplace, beq_self_eq_true, Bool.true_and]
    exact inScopeEach_of_fitsEach hargs
  | .array element rank, h => by
    rw [fits, Bool.and_eq_true] at h
    rw [inScope, h.1, Bool.true_and]
    exact inScope_of_fits h.2

lemma inScopeEach_of_fitsEach {scope : PlanScope} : ∀ {types : List PlanType},
    fitsEach scope types = true → inScopeEach scope types = true
  | [], _ => rfl
  | type :: types, h => by
    rw [fitsEach, Bool.and_eq_true] at h
    rw [inScopeEach, inScope_of_fits h.1, inScopeEach_of_fitsEach h.2]
    rfl

end

lemma inScope_of_fitsReturn (h : type.fitsReturn scope = true) : type.inScope scope = true := by
  rcases fitsReturn_cases h with rfl | hfits
  · rfl
  · exact inScope_of_fits hfits

lemma inScope_declared (h : (PlanType.declared place args).inScope scope = true) :
    scope.arities[place]? = some args.length ∧ inScopeEach scope args = true := by
  rwa [inScope, Bool.and_eq_true, beq_iff_eq] at h

end PlanType

/-- Whether a type can be a base or a constraint. -/
def PlanType.fitsBase (scope : PlanScope) (type : PlanType) : Bool := type.isDeclared && type.fits scope

/-- Generic parameters are told apart by their names. Their numbers have sixteen bits. -/
def PlanParam.fitAll (scope : PlanScope) (generics : List PlanParam) : Prop :=
  generics.length ≤ 0x10000 ∧ (generics.map PlanParam.name).Nodup ∧
    ∀ param ∈ generics, isPlainName param.name = true ∧
      ∀ type ∈ param.constraints, type.fitsBase scope = true

def PlanMember.Fits (scope : PlanScope) : PlanMember → Prop
  | .property name type getter setter =>
    isPlainName name = true ∧ type.fits scope = true ∧ (getter || setter) = true
  | .method name generics returns params =>
    isPlainName name = true ∧ PlanParam.fitAll (scope.inMethod generics) generics ∧
      returns.fitsReturn (scope.inMethod generics) = true ∧ params.length < 0x10000 ∧
      ∀ param ∈ params, isPlainName param.1 = true ∧ param.2.fits (scope.inMethod generics) = true

structure PlanDecl.Fits (arities : List Nat) (d : PlanDecl) : Prop where
  kind : d.kind ≠ .enumType
  spaces : d.spaces ≠ [] ∧ d.spaces ≠ ["System"] ∧ ∀ part ∈ d.spaces, isPlainName part = true
  name : isPlainName d.name = true
  generics : PlanParam.fitAll (d.scope arities) d.generics
  bases : ∀ type ∈ d.bases, type.fitsBase (d.scope arities) = true
  members : ∀ member ∈ d.members, member.Fits (d.scope arities)

instance (scope : PlanScope) (generics : List PlanParam) : Decidable (PlanParam.fitAll scope generics) :=
  inferInstanceAs (Decidable (_ ∧ _ ∧ _))

instance (scope : PlanScope) : (member : PlanMember) → Decidable (member.Fits scope)
  | .property .. => inferInstanceAs (Decidable (_ ∧ _ ∧ _))
  | .method .. => inferInstanceAs (Decidable (_ ∧ _ ∧ _ ∧ _ ∧ _))

instance (arities : List Nat) (d : PlanDecl) : Decidable (d.Fits arities) :=
  decidable_of_iff (d.kind ≠ .enumType ∧
      (d.spaces ≠ [] ∧ d.spaces ≠ ["System"] ∧ ∀ part ∈ d.spaces, isPlainName part = true) ∧
      isPlainName d.name = true ∧ PlanParam.fitAll (d.scope arities) d.generics ∧
      (∀ type ∈ d.bases, type.fitsBase (d.scope arities) = true) ∧
      ∀ member ∈ d.members, member.Fits (d.scope arities))
    ⟨fun ⟨kind, spaces, name, generics, bases, members⟩ => ⟨kind, spaces, name, generics, bases, members⟩,
      fun ⟨kind, spaces, name, generics, bases, members⟩ => ⟨kind, spaces, name, generics, bases, members⟩⟩

/-- Declarations that refer to each other only, each told apart by its full name and the
number of its parameters. A token holds thirty bits of a declaration's place. -/
structure Plan where
  decls : List PlanDecl
  fits : ∀ d ∈ decls, d.Fits (decls.map PlanDecl.arity)
  keys : (decls.map fun d => (d.fullName, d.arity)).Nodup
  count : decls.length < 0x40000000

def Plan.arities (plan : Plan) : List Nat := plan.decls.map PlanDecl.arity

/-! What a plan says of its declarations. -/

lemma Plan.fits_at {d : PlanDecl} (hd : plan.decls[place]? = some d) : d.Fits plan.arities :=
  plan.fits d (List.mem_of_getElem? hd)

lemma Plan.exists_decl {s : PlanScope} (hs : s.arities = plan.arities)
    (h : (PlanType.declared place args).fits s = true) : ∃ d, plan.decls[place]? = some d ∧ d.arity = args.length := by
  obtain ⟨hplace, -⟩ := PlanType.fits_declared h
  rw [hs, arities, List.getElem?_map] at hplace
  obtain ⟨d, hd, harity⟩ := Option.map_eq_some_iff.mp hplace
  exact ⟨d, hd, harity⟩

/-- The shape of the declaration at a place. -/
def Plan.shape (plan : Plan) (ids : Nat → DeclId) (d : PlanDecl) : Shape := d.shape ids plan.arities

end TypeAtlas
