import TypeAtlas.Proofs.Chains
import TypeAtlas.Proofs.Work

/-!
Work under a limit, and the order in which a type asks for its tokens. A recursion that is cut
at some depth raises a fault there; it has ended if no fault makes a difference. Resolving a
type comes to its tokens in an order that does not depend on what they turn out to be, so what
holds of each token under a limit holds of the type.
-/

namespace TypeAtlas

open Metadata (SigType Token)

namespace Work

variable {α β : Type}

/-! Work under a limit, which is the fault that is raised there. -/

/-- The work has a result that the limit is nothing to. -/
def Ends (w : Fault → Work α) (a : Atlas) (result : Except Fault α × Atlas) : Prop :=
  ∀ limit, (w limit).exec a = result

/-- The work comes to the limit. -/
def IsCut (w : Fault → Work α) (a : Atlas) : Prop :=
  ∃ b, ∀ limit, (w limit).exec a = (.error limit, b)

/-- The limit is nothing but a way to fail. -/
def Limited (w : Fault → Work α) : Prop := ∀ a, IsCut w a ∨ ∃ result, Ends w a result

variable {w : Fault → Work α} {f : Fault → α → Work β} {a b : Atlas}
  {result : Except Fault α × Atlas}

lemma Ends.unique {other : Except Fault α × Atlas} (h : Ends w a result) (h' : Ends w a other) :
    result = other :=
  (h .endless).symm.trans (h' .endless)

lemma IsCut.not_ends (h : IsCut w a) : ¬Ends w a result := by
  obtain ⟨b, hcut⟩ := h
  intro hends
  have hsame := (hcut .endless).symm.trans ((hends .endless).trans (hends (.unresolved "" "" "")).symm)
  rw [hcut] at hsame
  cases hsame

lemma Limited.const (w : Work α) : Limited fun _ => w := fun a => .inr ⟨w.exec a, fun _ => rfl⟩

lemma not_isCut_const (w : Work α) : ¬IsCut (fun _ => w) a := by
  intro h
  exact h.not_ends fun _ => rfl

lemma exec_bind_of_ends {x : α} (h : Ends w a (.ok x, b)) (limit : Fault) :
    (w limit >>= f limit).exec a = (f limit x).exec b := by
  rw [exec_bind, h limit]

lemma IsCut.bind (h : IsCut w a) : IsCut (fun limit => w limit >>= f limit) a := by
  obtain ⟨b, hcut⟩ := h
  refine ⟨b, fun limit => ?_⟩
  rw [exec_bind, hcut limit]

lemma IsCut.bind_of_ends {x : α} (h : Ends w a (.ok x, b)) (hcut : IsCut (fun limit => f limit x) b) :
    IsCut (fun limit => w limit >>= f limit) a := by
  obtain ⟨c, hcut⟩ := hcut
  refine ⟨c, fun limit => ?_⟩
  rw [exec_bind_of_ends h]
  exact hcut limit

lemma Ends.bind {x : α} {found : Except Fault β × Atlas} (h : Ends w a (.ok x, b))
    (hends : Ends (fun limit => f limit x) b found) : Ends (fun limit => w limit >>= f limit) a found := by
  intro limit
  rw [exec_bind_of_ends h]
  exact hends limit

lemma Ends.bind_error {fault : Fault} (h : Ends w a (.error fault, b)) :
    Ends (fun limit => w limit >>= f limit) a (.error fault, b) := by
  intro limit
  rw [exec_bind, h limit]

lemma Limited.bind (h : Limited w) (hf : ∀ x, Limited fun limit => f limit x) :
    Limited fun limit => w limit >>= f limit := by
  intro a
  rcases h a with hcut | ⟨⟨r, b⟩, hends⟩
  · exact .inl hcut.bind
  · cases r with
    | error fault => exact .inr ⟨_, hends.bind_error⟩
    | ok x =>
      rcases hf x b with hcut | ⟨found, hfound⟩
      · exact .inl (.bind_of_ends hends hcut)
      · exact .inr ⟨found, hends.bind hfound⟩

/-- Work that is cut is cut in its first part, or in the second behind a result of the first. -/
lemma IsCut.of_bind (h : Limited w) (hcut : IsCut (fun limit => w limit >>= f limit) a) :
    IsCut w a ∨ ∃ x b, Ends w a (.ok x, b) ∧ IsCut (fun limit => f limit x) b := by
  rcases h a with hfirst | ⟨⟨r, b⟩, hends⟩
  · exact .inl hfirst
  · cases r with
    | error fault => exact absurd hends.bind_error hcut.not_ends
    | ok x =>
      obtain ⟨c, hcut⟩ := hcut
      refine .inr ⟨x, b, hends, c, fun limit => ?_⟩
      rw [← exec_bind_of_ends hends]
      exact hcut limit

/-- Work that ends ends in its first part. -/
lemma Ends.of_bind (h : Limited w) {r : Except Fault β} {c : Atlas}
    (hends : Ends (fun limit => w limit >>= f limit) a (r, c)) :
    (∃ fault, r = .error fault ∧ Ends w a (.error fault, c)) ∨
      ∃ x b, Ends w a (.ok x, b) ∧ Ends (fun limit => f limit x) b (r, c) := by
  rcases h a with hcut | ⟨⟨s, b⟩, hfirst⟩
  · exact absurd hends hcut.bind.not_ends
  · cases s with
    | error fault =>
      cases hends.unique hfirst.bind_error
      exact .inl ⟨fault, rfl, hfirst⟩
    | ok x =>
      refine .inr ⟨x, b, hfirst, fun limit => ?_⟩
      rw [← exec_bind_of_ends hfirst]
      exact hends limit

/-- What the work does without a limit, where it ends. -/
def Refines (w : Fault → Work α) (v : Work α) : Prop := ∀ a result, Ends w a result → v.exec a = result

lemma Refines.const (w : Work α) : Refines (fun _ => w) w := fun _ _ h => h .endless

lemma Refines.bind {v : Work α} {g : α → Work β} (hlimited : Limited w) (h : Refines w v)
    (hf : ∀ x, Refines (fun limit => f limit x) (g x)) :
    Refines (fun limit => w limit >>= f limit) (v >>= g) := by
  rintro a ⟨r, c⟩ hends
  rw [exec_bind]
  rcases hends.of_bind hlimited with ⟨fault, rfl, hfirst⟩ | ⟨x, b, hfirst, hrest⟩
  · rw [h a _ hfirst]
  · rw [h a _ hfirst]
    exact hf x b _ hrest

/-! The order in which a type asks for its tokens. -/

/-- A parameter out of range is a check that fails. -/
def asksNumber (scope : Scope) (names : List String) (number : Nat) : List (Except Fault Token) :=
  match names[number]? with
  | some _ => []
  | none => [.error (.malformed (.parameterRange number scope.requester scope.location))]

mutual

/-- What resolving a type comes to in turn: tokens to resolve, or a check that fails. -/
def asks (m : Metadata.Module) (scope : Scope) : SigType → List (Except Fault Token)
  | .builtin _ => []
  | .classType t | .valueType t => [.ok t]
  | .inst generic _ args =>
    match isNullable m generic args with
    | .error cause => [.error (.malformed cause)]
    | .ok nullable => asksEach m scope args ++ if nullable then [] else [.ok generic]
  | .typeParam number => asksNumber scope scope.typeParams number
  | .methodParam number => asksNumber scope scope.methodParams number
  | .vector element | .array element _ => asks m scope element
  | .byRef inner | .pointer inner => asks m scope inner

def asksEach (m : Metadata.Module) (scope : Scope) : List SigType → List (Except Fault Token)
  | [] => []
  | arg :: args => asks m scope arg ++ asksEach m scope args

end

variable {m : Metadata.Module} {scope : Scope} {steps more : List (Except Fault Token)}

/-- Work that resolves tokens in this order, whatever their uses are, and stops at a check that
fails. -/
inductive Asks : List (Except Fault Token) → ((Token → Work Use) → Work α) → Prop
  | done (x : α) : Asks [] fun _ => pure x
  | fails (fault : Fault) (rest : List (Except Fault Token)) : Asks (.error fault :: rest) fun _ => throw fault
  | token (t : Token) {rest : List (Except Fault Token)} {next : Use → (Token → Work Use) → Work α} :
      (∀ use, Asks rest (next use)) → Asks (.ok t :: rest) fun token => token t >>= fun use => next use token

lemma Asks.bind {v : (Token → Work Use) → Work α} {g : α → (Token → Work Use) → Work β}
    (h : Asks steps v) (hg : ∀ x, Asks more (g x)) :
    Asks (steps ++ more) fun token => v token >>= fun x => g x token := by
  induction h with
  | done x =>
    simp only [pure_bind]
    exact hg x
  | fails fault rest => exact .fails fault (rest ++ more)
  | token t _ ih =>
    simp only [bind_assoc]
    exact .token t ih

lemma Asks.map {v : (Token → Work Use) → Work α} (h : Asks steps v) (g : α → β) :
    Asks steps fun token => v token >>= fun x => pure (g x) := by
  have hbind : Asks (steps ++ []) fun token => v token >>= fun x => (pure (g x) : Work β) :=
    h.bind fun x => .done (g x)
  rwa [List.append_nil] at hbind

lemma numbered_asks (scope : Scope) (names : List String) (owner : ParamOwner) (number : Nat) :
    Asks (asksNumber scope names number) fun _ => numbered scope names owner number := by
  unfold asksNumber numbered
  cases names[number]? with
  | some name => exact .done _
  | none => exact .fails _ []

/-- What is nullable has one argument. -/
lemma exists_arg_of_isNullable {generic : Token} {args : List SigType}
    (h : isNullable m generic args = .ok true) : ∃ arg, args = [arg] := by
  unfold isNullable at h
  split at h
  · exact ⟨_, rfl⟩
  · cases h

mutual

lemma signatureWith_asks (m : Metadata.Module) (scope : Scope) : ∀ type : SigType,
    Asks (asks m scope type) fun token => signatureWith token m scope type
  | .builtin type => by
    simp only [asks, signatureWith]
    exact .done _
  | .classType t | .valueType t => by
    have htoken : Asks [.ok t] fun token => token t >>= fun use => (pure use : Work Use) :=
      .token t fun use => .done use
    simp only [bind_pure] at htoken
    simp only [asks, signatureWith]
    exact htoken
  | .inst generic isValue args => by
    simp only [asks, signatureWith]
    have heach := signatureEach_asks m scope args
    cases hnullable : isNullable m generic args with
    | error cause => exact .fails (.malformed cause) []
    | ok nullable =>
      cases nullable with
      | false =>
        refine heach.bind fun uses => ?_
        exact Asks.token generic fun use => .done (use.withArgs uses)
      | true =>
        obtain ⟨arg, rfl⟩ := exists_arg_of_isNullable hnullable
        have harg := (signatureWith_asks m scope arg).map id
        simp only [asksEach, signatureEach, List.append_nil, if_true, check, bind_assoc, pure_bind]
        exact harg
  | .typeParam number => by
    simp only [asks, signatureWith]
    exact numbered_asks ..
  | .methodParam number => by
    simp only [asks, signatureWith]
    exact numbered_asks ..
  | .vector element => by
    simp only [asks, signatureWith]
    exact (signatureWith_asks m scope element).map _
  | .array element rank => by
    simp only [asks, signatureWith]
    exact (signatureWith_asks m scope element).map _
  | .byRef inner | .pointer inner => by
    simp only [asks, signatureWith]
    exact signatureWith_asks m scope inner

lemma signatureEach_asks (m : Metadata.Module) (scope : Scope) : ∀ types : List SigType,
    Asks (asksEach m scope types) fun token => signatureEach token m scope types
  | [] => by
    simp only [asksEach, signatureEach]
    exact .done _
  | type :: types => by
    simp only [asksEach, signatureEach]
    refine (signatureWith_asks m scope type).bind fun use => ?_
    exact (signatureEach_asks m scope types).map _

end

/-! Every token that is asked for is one of the type, and every specification in the type is
asked for unless a check fails. -/

lemma not_ok_mem_asksNumber {names : List String} {number : Nat} {t : Token} :
    .ok t ∉ asksNumber scope names number := by
  unfold asksNumber
  split <;> simp

mutual

lemma mem_tokens_of_asks {t : Token} : ∀ type : SigType, .ok t ∈ asks m scope type → t ∈ type.tokens
  | .builtin _, h => by simp [asks] at h
  | .classType _, h | .valueType _, h => by simpa [asks, SigType.tokens] using h
  | .inst generic isValue args, h => by
    rw [asks] at h
    rw [SigType.tokens, List.mem_cons]
    split at h
    · simp at h
    · rcases List.mem_append.mp h with h | h
      · exact .inr (mem_tokensEach_of_asks args h)
      · split at h
        · simp at h
        · simp only [List.mem_singleton, Except.ok.injEq] at h
          exact .inl h
  | .typeParam _, h | .methodParam _, h => by
    rw [asks] at h
    exact absurd h not_ok_mem_asksNumber
  | .vector element, h | .array element _, h => by
    rw [asks] at h
    rw [SigType.tokens]
    exact mem_tokens_of_asks element h
  | .byRef inner, h | .pointer inner, h => by
    rw [asks] at h
    rw [SigType.tokens]
    exact mem_tokens_of_asks inner h

lemma mem_tokensEach_of_asks {t : Token} : ∀ types : List SigType, .ok t ∈ asksEach m scope types →
    t ∈ SigType.tokensEach types
  | [], h => by simp [asksEach] at h
  | type :: types, h => by
    rw [asksEach] at h
    rw [SigType.tokensEach, List.mem_append]
    rcases List.mem_append.mp h with h | h
    · exact .inl (mem_tokens_of_asks type h)
    · exact .inr (mem_tokensEach_of_asks types h)

end

/-- A specification has no name, so it does not stand for nullable types. -/
lemma not_isNullable_specification {row : Nat} {args : List SigType} :
    isNullable m (.specification row) args ≠ .ok true := by
  unfold isNullable
  split
  · simp [Metadata.Module.typeName, bind, Except.bind, pure, Except.pure]
  · simp

mutual

lemma asks_specification (m : Metadata.Module) (scope : Scope) {row : Nat} : ∀ type : SigType, .specification row ∈ type.tokens →
    .ok (.specification row) ∈ asks m scope type ∨ ∃ fault, .error fault ∈ asks m scope type
  | .builtin _, h | .typeParam _, h | .methodParam _, h => by simp [SigType.tokens] at h
  | .classType _, h | .valueType _, h => by
    left
    simpa [asks, SigType.tokens] using h
  | .inst generic isValue args, h => by
    rw [SigType.tokens, List.mem_cons] at h
    rw [asks]
    cases hnullable : isNullable m generic args with
    | error cause => exact .inr ⟨_, List.mem_singleton_self _⟩
    | ok nullable =>
      rcases h with rfl | h
      · cases nullable with
        | true => exact absurd hnullable not_isNullable_specification
        | false => simp
      · rcases asks_specificationEach m scope args h with h | ⟨fault, h⟩
        · exact .inl (List.mem_append_left _ h)
        · exact .inr ⟨fault, List.mem_append_left _ h⟩
  | .vector element, h | .array element _, h => by
    rw [SigType.tokens] at h
    rw [asks]
    exact asks_specification m scope element h
  | .byRef inner, h | .pointer inner, h => by
    rw [SigType.tokens] at h
    rw [asks]
    exact asks_specification m scope inner h

lemma asks_specificationEach (m : Metadata.Module) (scope : Scope) {row : Nat} : ∀ types : List SigType,
    .specification row ∈ SigType.tokensEach types →
      .ok (.specification row) ∈ asksEach m scope types ∨ ∃ fault, .error fault ∈ asksEach m scope types
  | [], h => by simp [SigType.tokensEach] at h
  | type :: types, h => by
    rw [SigType.tokensEach, List.mem_append] at h
    rw [asksEach]
    rcases h with h | h
    · rcases asks_specification m scope type h with h | ⟨fault, h⟩
      · exact .inl (List.mem_append_left _ h)
      · exact .inr ⟨fault, List.mem_append_left _ h⟩
    · rcases asks_specificationEach m scope types h with h | ⟨fault, h⟩
      · exact .inl (List.mem_append_right _ h)
      · exact .inr ⟨fault, List.mem_append_right _ h⟩

end

/-! What holds of tokens under a limit holds of work that asks for them. -/

namespace Asks

variable {v : (Token → Work Use) → Work α} {inner : Fault → Token → Work Use}

section

variable (h : Asks steps v) (hinner : ∀ t, Limited fun limit => inner limit t)

include h hinner

lemma limited : Limited fun limit => v (inner limit) := by
  induction h with
  | done x => exact .const _
  | fails fault rest => exact .const _
  | token t _ ih => exact (hinner t).bind ih

lemma refines
    {answer : Token → Work Use} (hanswer : ∀ t, Refines (fun limit => inner limit t) (answer t)) :
    Refines (fun limit => v (inner limit)) (v answer) := by
  induction h with
  | done x => exact .const _
  | fails fault rest => exact .const _
  | token t _ ih => exact .bind (hinner t) (hanswer t) ih

/-- Work that is cut is cut in one of its tokens. -/
lemma exists_cut (hcut : IsCut (fun limit => v (inner limit)) a) :
    ∃ t, .ok t ∈ steps ∧ ∃ b, IsCut (fun limit => inner limit t) b := by
  induction h generalizing a with
  | done x => exact absurd hcut (not_isCut_const _)
  | fails fault rest => exact absurd hcut (not_isCut_const _)
  | token t _ ih =>
    rcases hcut.of_bind (hinner t) with hfirst | ⟨use, b, -, hrest⟩
    · exact ⟨t, List.mem_cons_self, a, hfirst⟩
    · obtain ⟨other, hmem, hother⟩ := ih use hrest
      exact ⟨other, List.mem_cons_of_mem _ hmem, hother⟩

/-- Work that gives a result has a use for each of its tokens. -/
lemma ends_each {x : α}
    (hends : Ends (fun limit => v (inner limit)) a (.ok x, b)) {step : Except Fault Token} (hstep : step ∈ steps) :
    ∃ t, step = .ok t ∧ ∃ c use d, Ends (fun limit => inner limit t) c (.ok use, d) := by
  induction h generalizing a with
  | done x => cases hstep
  | fails fault rest =>
    cases hends .endless
  | token t _ ih =>
    rcases hends.of_bind (hinner t) with ⟨fault, hok, -⟩ | ⟨use, c, hfirst, hrest⟩
    · cases hok
    · rcases List.mem_cons.mp hstep with rfl | hstep
      · exact ⟨t, rfl, a, use, c, hfirst⟩
      · exact ih use hrest hstep

end

end Asks

end Work

end TypeAtlas
