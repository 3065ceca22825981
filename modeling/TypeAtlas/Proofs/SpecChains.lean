import TypeAtlas.Proofs.Asking
import TypeAtlas.Proofs.BuildCalls
import TypeAtlas.Proofs.Repeating

/-!
Specifications that lead to specifications. A token for a specification is resolved through
the tokens in its type, without a record of the specifications that are being resolved. Main
statement: the recursion ends where no specification leads back to itself; one that does never
gives a use, and either fails on another token first or never ends.
-/

namespace TypeAtlas

open Metadata (SigType Token)

variable {inner : Fault → Token → Work Use} {row : Nat}

namespace Work

variable {α β : Type} {a b : Atlas}

/-! The recursion from tokens to types to tokens. -/

section Recursion

variable (found : Use → Work Unit) (library : Library) (scope : Scope) {answer : Token → Work Use} {use : Use}

/-- Resolve a token where `inner` resolves those in the type of a specification. -/
def tokenStep (inner : Token → Work Use) : Token → Work Use
  | .specification row => do
    let type ← check (library.module.specType row)
    signatureWith inner library.module scope type
  | .definition row => tokenWith found library scope 0 (.definition row)
  | .reference row => tokenWith found library scope 0 (.reference row)

/-- Resolve a token where specifications that can be read raise a fault at some depth. -/
def tokenWithin (limit : Fault) : Nat → Token → Work Use
  | 0, .specification row => do
    let _ ← check (library.module.specType row)
    throw limit
  | 0, .definition row => tokenWith found library scope 0 (.definition row)
  | 0, .reference row => tokenWith found library scope 0 (.reference row)
  | depth + 1, token => tokenStep found library scope (tokenWithin limit depth) token

/-- Resolving a token ends within a depth if the limit there makes no difference. -/
def EndsWithin (depth : Nat) (token : Token) (a : Atlas) (result : Except Fault Use × Atlas) : Prop :=
  Ends (fun limit => tokenWithin found library scope limit depth token) a result

variable {found library scope}

lemma check_bind {γ : Type} (x : Except Malformed α) (g : α → Except Malformed β) (k : β → Work γ) :
    (do let y ← check x; let z ← check (g y); k z) = (do let z ← check (x >>= g); k z) := by
  cases x <;> rfl

lemma tokenWith_eq (depth : Nat) (token : Token) :
    tokenWith found library scope depth token = tokenWithin found library scope .endless depth token := by
  induction depth generalizing token with
  | zero =>
    cases token with
    | specification row =>
      simp only [tokenWith, tokenWithin, Metadata.Module.specType, check_bind]
    | definition row | reference row => rfl
  | succ depth ih =>
    cases token with
    | specification row =>
      have hinner : tokenWith found library scope depth = tokenWithin found library scope .endless depth :=
        funext ih
      simp only [tokenWith, tokenWithin, tokenStep, Metadata.Module.specType, check_bind, hinner]
    | definition row | reference row => simp only [tokenWith, tokenWithin, tokenStep]

lemma tokenStep_limited (h : ∀ t, Limited fun limit => inner limit t) (token : Token) :
    Limited fun limit => tokenStep found library scope (inner limit) token := by
  cases token with
  | specification row =>
    refine (Limited.const _).bind fun type => ?_
    exact (signatureWith_asks library.module scope type).limited h
  | definition row | reference row => exact .const _

lemma tokenStep_refines (h : ∀ t, Limited fun limit => inner limit t)
    (hanswer : ∀ t, Refines (fun limit => inner limit t) (answer t)) (token : Token) :
    Refines (fun limit => tokenStep found library scope (inner limit) token)
      (tokenStep found library scope answer token) := by
  cases token with
  | specification row =>
    refine .bind (.const _) (.const _) fun type => ?_
    exact (signatureWith_asks library.module scope type).refines h hanswer
  | definition row | reference row => exact .const _

lemma throw_limited : Limited (fun limit => (throw limit : Work α)) := fun a => .inl ⟨a, fun _ => rfl⟩

lemma tokenWithin_limited (depth : Nat) (token : Token) :
    Limited fun limit => tokenWithin found library scope limit depth token := by
  induction depth generalizing token with
  | zero =>
    cases token with
    | specification row => exact (Limited.const _).bind fun _ => throw_limited
    | definition row | reference row => exact .const _
  | succ depth ih => exact tokenStep_limited ih token

/-- Where the recursion ends, everything that follows its equation far enough does the same. -/
lemma tokenWithin_refines (answers : Nat → Token → Work Use) {inner : Token → Work Use}
    (hzero : ∀ t, answers 0 t = tokenStep found library scope inner t)
    (hsucc : ∀ depth t, answers (depth + 1) t = tokenStep found library scope (answers depth) t) (depth : Nat)
    (token : Token) : Refines (fun limit => tokenWithin found library scope limit depth token) (answers depth token) := by
  induction depth generalizing token with
  | zero =>
    rw [hzero]
    cases token with
    | specification row =>
      refine .bind (.const _) (.const _) fun type b result hends => ?_
      exact absurd hends (IsCut.not_ends ⟨b, fun _ => rfl⟩)
    | definition row | reference row => exact .const _
  | succ depth ih =>
    rw [hsucc]
    exact tokenStep_refines (tokenWithin_limited depth) ih token

section Depths

variable {depth more : Nat} {token : Token} {result : Except Fault Use × Atlas}

/-- Whatever solves the equation of the recursion gives the result where it ends. -/
lemma EndsWithin.exec_eq (h : EndsWithin found library scope depth token a result)
    (hanswer : ∀ t, answer t = tokenStep found library scope answer t) : (answer token).exec a = result :=
  tokenWithin_refines (fun _ => answer) hanswer (fun _ => hanswer) depth token a result h

/-- Where the recursion has ended, it may be cut deeper as well. -/
lemma EndsWithin.mono (h : EndsWithin found library scope depth token a result) (hle : depth ≤ more) :
    EndsWithin found library scope more token a result := by
  induction hle with
  | refl => exact h
  | @step more _ ih =>
    intro limit
    exact tokenWithin_refines (fun depth => tokenWithin found library scope limit (depth + 1)) (fun _ => rfl)
      (fun _ _ => rfl) more token a result ih

lemma EndsWithin.unique {other : Except Fault Use × Atlas} (h : EndsWithin found library scope depth token a result)
    (h' : EndsWithin found library scope more token a other) : result = other := by
  rcases Nat.le_total depth more with hle | hle
  · exact Ends.unique (h.mono hle) h'
  · exact Ends.unique h (h'.mono hle)

/-- Resolving a token is cut at a depth. -/
def CutAt (found : Use → Work Unit) (library : Library) (scope : Scope) (depth : Nat) (token : Token) (a : Atlas) : Prop :=
  IsCut (fun limit => tokenWithin found library scope limit depth token) a

lemma cutAt_or_endsWithin (found : Use → Work Unit) (library : Library) (scope : Scope) (depth : Nat) (token : Token)
    (a : Atlas) : CutAt found library scope depth token a ∨ ∃ result, EndsWithin found library scope depth token a result :=
  tokenWithin_limited depth token a

lemma CutAt.anti (h : CutAt found library scope more token a) (hle : depth ≤ more) :
    CutAt found library scope depth token a := by
  rcases cutAt_or_endsWithin found library scope depth token a with hcut | ⟨result, hends⟩
  · exact hcut
  · exact absurd (hends.mono hle) (IsCut.not_ends h)

/-- Only specifications are cut, and only those that can be read. -/
lemma CutAt.exists_specType (h : CutAt found library scope depth token a) :
    ∃ row type, token = .specification row ∧ library.module.specType row = .ok type := by
  cases token with
  | definition row | reference row => cases depth <;> exact absurd h (not_isCut_const _)
  | specification row =>
    cases htype : library.module.specType row with
    | ok type => exact ⟨row, type, rfl, htype⟩
    | error cause =>
      obtain ⟨b, hcut⟩ := h
      have hfails : ∀ limit, (tokenWithin found library scope limit depth (.specification row)).exec a =
          (.error (.malformed cause), a) := by
        intro limit
        cases depth <;> simp [tokenWithin, tokenStep, htype, exec_bind]
      cases (hcut .endless).symm.trans (hfails .endless)

end Depths

/-- A specification that can be read is resolved by its type. -/
lemma tokenWithin_specification {type : SigType} (htype : library.module.specType row = .ok type) (depth : Nat) :
    (fun limit => tokenWithin found library scope limit (depth + 1) (.specification row)) =
      fun limit => signatureWith (tokenWithin found library scope limit depth) library.module scope type := by
  funext limit
  simp [tokenWithin, tokenStep, htype, check]

lemma CutAt.mem_Icc {depth : Nat} (h : CutAt found library scope depth (.specification row) a) :
    row ∈ Finset.Icc 1 library.module.typeSpecs.size := by
  obtain ⟨_, type, heq, htype⟩ := h.exists_specType
  cases heq
  exact Metadata.Module.mem_Icc_of_specType htype

/-- A specification that is cut leads to one that is cut one step before. -/
lemma CutAt.exists_next {depth : Nat} (h : CutAt found library scope (depth + 1) (.specification row) a) :
    ∃ next b, library.module.SpecLeads row next ∧ CutAt found library scope depth (.specification next) b := by
  obtain ⟨_, type, heq, htype⟩ := h.exists_specType
  cases heq
  rw [CutAt, tokenWithin_specification htype] at h
  obtain ⟨t, hmem, b, hnext⟩ := (signatureWith_asks library.module scope type).exists_cut (tokenWithin_limited depth) h
  obtain ⟨next, -, rfl, -⟩ := CutAt.exists_specType hnext
  exact ⟨next, b, Metadata.Module.specLeads_of_specType htype (mem_tokens_of_asks type hmem), hnext⟩

/-- Where no specification leads back to itself the recursion is not cut at the depth of all
rows: each step passes another one. -/
lemma not_cutAt_of_not_turns {depth : Nat}
    (hpassed : Metadata.Module.Passed library.module.SpecLeads library.module.typeSpecs.size row depth)
    (hturns : ¬Metadata.Module.Turns library.module.SpecLeads row) :
    ¬CutAt found library scope depth (.specification row) a := by
  induction depth generalizing row a with
  | zero =>
    intro hcut
    exact hpassed.fuel_ne_zero (fun h => hturns ⟨row, .refl, h⟩) hcut.mem_Icc rfl
  | succ depth ih =>
    intro hcut
    obtain ⟨next, b, hleads, hnext⟩ := hcut.exists_next
    refine ih (hpassed.step (fun h => hturns ⟨row, .refl, h⟩) hcut.mem_Icc hleads) ?_ hnext
    exact fun h => hturns (h.of_leads hleads)

lemma not_endsWithin_zero : ¬EndsWithin found library scope 0 (.specification row) a (.ok use, b) := by
  intro h
  have hrun := h .endless
  cases htype : library.module.specType row <;> simp [tokenWithin, htype, exec_bind] at hrun

/-- A specification with a use has uses for those in its type, found less deep. -/
lemma EndsWithin.next {depth row next : Nat} {use : Use}
    (h : EndsWithin found library scope depth (.specification row) a (.ok use, b))
    (hleads : library.module.SpecLeads row next) :
    ∃ less < depth, ∃ c inner d, EndsWithin found library scope less (.specification next) c (.ok inner, d) := by
  obtain ⟨type, htype, hmem⟩ := Metadata.Module.specType_of_specLeads hleads
  cases depth with
  | zero => exact absurd h not_endsWithin_zero
  | succ depth =>
    rw [EndsWithin, tokenWithin_specification htype] at h
    have hasks := signatureWith_asks library.module scope type
    rcases asks_specification library.module scope type hmem with hasked | ⟨fault, hfails⟩
    · obtain ⟨t, ht, c, inner, d, hinner⟩ := hasks.ends_each (tokenWithin_limited depth) h hasked
      cases ht
      exact ⟨depth, Nat.lt_succ_self depth, c, inner, d, hinner⟩
    · obtain ⟨t, ht, -⟩ := hasks.ends_each (tokenWithin_limited depth) h hfails
      cases ht

/-- A specification that leads to one which leads back to itself has no use. -/
lemma EndsWithin.not_turns {depth : Nat}
    (h : EndsWithin found library scope depth (.specification row) a (.ok use, b)) :
    ¬Metadata.Module.Turns library.module.SpecLeads row := by
  rw [← Metadata.Module.acc_iff_not_turns Metadata.Module.mem_Icc_of_specLeads]
  induction depth using Nat.strongRecOn generalizing row a b use with
  | ind depth ih =>
    refine .intro row fun next hleads => ?_
    obtain ⟨less, hless, c, inner, d, hinner⟩ := h.next hleads
    exact ih less hless hinner

end Recursion

end Work

/-- An atlas with right indexes in which following a use loads nothing. -/
structure Atlas.Lazy (a : Atlas) : Prop where
  indexed : a.graph.Indexed
  policy : a.settings.loadPolicy = .lazy

lemma Atlas.Lazy.widens {a b : Atlas} (h : a.Lazy) (hwidens : a.Widens b) : b.Lazy :=
  ⟨hwidens.indexed, hwidens.settings ▸ h.policy⟩

namespace Work

variable {α β : Type} {a b : Atlas} {library : Library} {scope : Scope}
  {v : (Token → Work Use) → Work α} {steps : List (Except Fault Token)} {f : α → Work β}
  {depth : Nat}

lemma exec_follow_return (ha : a.Lazy) (use : Use) :
    Work.exec (do follow use; return use) a = (.ok use, a) := by
  rw [exec_bind, exec_follow_of_lazy ha.policy]
  rfl

lemma Repeats.follow {w : Work Use} (h : Repeats w a) (ha : a.Lazy) :
    Repeats (do
      let use ← w
      Work.follow use
      return use) a := by
  intro x b hrun
  obtain ⟨use, c, hw, hrest⟩ := exec_bind_eq_ok hrun
  obtain ⟨hwidens, hagain⟩ := h use c hw
  rw [exec_follow_return (ha.widens hwidens)] at hrest
  cases hrest
  refine ⟨hwidens, fun d hd => ?_⟩
  obtain ⟨other, hother⟩ := hagain d hd
  refine ⟨other, ?_⟩
  rw [exec_bind, hother]
  exact exec_follow_return (ha.widens (hwidens.trans hd)) other

lemma Repeats.check {x : Except Malformed α} (h : ∀ y, Repeats (f y) a) : Repeats (do f (← Work.check x)) a := by
  cases x with
  | ok y => exact h y
  | error cause =>
    intro y b hrun
    cases hrun

lemma Repeats.settle {x : Except Fault α} (h : ∀ y, Repeats (f y) a) : Repeats (do f (← Work.settle x)) a := by
  cases x with
  | ok y => exact h y
  | error fault =>
    intro y b hrun
    cases hrun

lemma tokenWith_definition_repeats (ha : a.Lazy) (library : Library) (scope : Scope) (row : Nat) :
    Repeats (tokenWith follow library scope 0 (.definition row)) a := by
  have hdefine : Repeats (do return Use.declared (← define library row) [] none) a :=
    (define_repeats ha.indexed library row).map
  have hfollow := hdefine.follow ha
  simp only [bind_assoc, pure_bind] at hfollow
  simp only [tokenWith]
  exact hfollow

lemma tokenWith_reference_repeats (ha : a.Lazy) (library : Library) (scope : Scope) (row : Nat) :
    Repeats (tokenWith follow library scope 0 (.reference row)) a := by
  simp only [tokenWith]
  refine .check fun ref => .check fun ns => .check fun name => .settle fun assembly => ?_
  exact (external_repeats ha.indexed scope _ assembly).follow ha

/-- Where work under a limit ends well, it ends well again on what it left behind. -/
def RepeatsWithin (w : Fault → Work α) : Prop :=
  ∀ a x b, a.Lazy → Ends w a (.ok x, b) → a.Widens b ∧ ∀ c, b.Widens c → ∃ y, Ends w c (.ok y, c)

lemma RepeatsWithin.const {w : Work α} (h : ∀ a : Atlas, a.Lazy → Repeats w a) : RepeatsWithin fun _ => w := by
  intro a x b ha hends
  obtain ⟨hwidens, hagain⟩ := h a ha x b (hends .endless)
  refine ⟨hwidens, fun c hc => ?_⟩
  obtain ⟨y, hy⟩ := hagain c hc
  exact ⟨y, fun _ => hy⟩

/-- All work that asks for the same tokens ends well again. -/
lemma Asks.again (h : Asks steps v) (hlimited : ∀ t, Limited fun limit => inner limit t)
    (hinner : ∀ t, RepeatsWithin fun limit => inner limit t) (ha : a.Lazy) {x : α}
    (hends : Ends (fun limit => v (inner limit)) a (.ok x, b)) :
    a.Widens b ∧ ∀ c, b.Widens c → ∀ v' : (Token → Work Use) → Work α, Asks steps v' →
      ∃ y, Ends (fun limit => v' (inner limit)) c (.ok y, c) := by
  induction h generalizing a with
  | done x =>
    cases hends .endless
    refine ⟨.refl ha.indexed, fun c _ v' hv' => ?_⟩
    cases hv' with
    | done y => exact ⟨y, fun _ => rfl⟩
  | fails fault rest => cases hends .endless
  | token t _ ih =>
    rcases hends.of_bind (hlimited t) with ⟨fault, hok, -⟩ | ⟨use, d, hfirst, hrest⟩
    · cases hok
    · obtain ⟨hwidens, hagain⟩ := hinner t a use d ha hfirst
      obtain ⟨hwidens', hagain'⟩ := ih use (ha.widens hwidens) hrest
      refine ⟨hwidens.trans hwidens', fun c hc v' hv' => ?_⟩
      cases hv' with
      | token _ hnext =>
        obtain ⟨other, hother⟩ := hagain c (hwidens'.trans hc)
        obtain ⟨y, hy⟩ := hagain' c hc _ (hnext other)
        exact ⟨y, hother.bind hy⟩

/-- A token that was resolved is resolved again, at the same depth. -/
lemma tokenWithin_repeats (depth : Nat) (token : Token) :
    RepeatsWithin fun limit => tokenWithin follow library scope limit depth token := by
  induction depth generalizing token with
  | zero =>
    cases token with
    | definition row => exact .const fun a ha => tokenWith_definition_repeats ha library scope row
    | reference row => exact .const fun a ha => tokenWith_reference_repeats ha library scope row
    | specification row =>
      intro a use b ha hends
      exact absurd hends not_endsWithin_zero
  | succ depth ih =>
    cases token with
    | definition row => exact .const fun a ha => tokenWith_definition_repeats ha library scope row
    | reference row => exact .const fun a ha => tokenWith_reference_repeats ha library scope row
    | specification row =>
      intro a use b ha hends
      cases htype : library.module.specType row with
      | error cause =>
        have hrun := hends .endless
        simp [tokenWithin, tokenStep, htype, exec_bind] at hrun
      | ok type =>
        rw [tokenWithin_specification htype] at hends ⊢
        have hasks := signatureWith_asks library.module scope type
        obtain ⟨hwidens, hagain⟩ := hasks.again (tokenWithin_limited depth) ih ha hends
        exact ⟨hwidens, fun c hc => hagain c hc _ hasks⟩

/-- Work that is cut comes to a token that is cut, and would be cut as well in any atlas in
which the tokens before it were resolved. -/
lemma Asks.enters (h : Asks steps v) (ha : a.Lazy)
    (hcut : IsCut (fun limit => v (tokenWithin follow library scope limit depth)) a) :
    ∃ t, .ok t ∈ steps ∧ ∃ b, a.Widens b ∧ CutAt follow library scope depth t b ∧
      (∀ k, CutAt follow library scope k t b →
        IsCut (fun limit => v (tokenWithin follow library scope limit k)) a) ∧
      ∀ c, b.Widens c → ∀ k, CutAt follow library scope k t c → ∀ v' : (Token → Work Use) → Work α, Asks steps v' →
        IsCut (fun limit => v' (tokenWithin follow library scope limit k)) c := by
  induction h generalizing a with
  | done x => exact absurd hcut (not_isCut_const _)
  | fails fault rest => exact absurd hcut (not_isCut_const _)
  | token t _ ih =>
    rcases hcut.of_bind (tokenWithin_limited depth t) with hfirst | ⟨use, d, hfirst, hrest⟩
    · refine ⟨t, List.mem_cons_self, a, .refl ha.indexed, hfirst, fun k hk => IsCut.bind hk, ?_⟩
      intro c _ k hk v' hv'
      cases hv' with
      | token _ _ => exact IsCut.bind hk
    · obtain ⟨hwidens, hagain⟩ := tokenWithin_repeats depth t a use d ha hfirst
      obtain ⟨other, hmem, b, hwidens', hother, hnow, hlater⟩ := ih use (ha.widens hwidens) hrest
      refine ⟨other, List.mem_cons_of_mem _ hmem, b, hwidens.trans hwidens', hother, fun k hk => ?_, ?_⟩
      · rcases cutAt_or_endsWithin follow library scope k t a with hagain | ⟨result, hends⟩
        · exact IsCut.bind hagain
        · obtain rfl := EndsWithin.unique hfirst hends
          exact IsCut.bind_of_ends hends (hnow k hk)
      · intro c hc k hk v' hv'
        cases hv' with
        | token _ hnext =>
          rcases cutAt_or_endsWithin follow library scope k t c with hstop | ⟨result, hends⟩
          · exact IsCut.bind hstop
          · obtain ⟨again, hfound⟩ := hagain c (hwidens'.trans hc)
            obtain rfl := EndsWithin.unique hfound hends
            exact IsCut.bind_of_ends hends (hlater c hc k hk _ (hnext again))

/-- The same for a specification and one in its type. -/
lemma CutAt.enters (ha : a.Lazy) (h : CutAt follow library scope (depth + 1) (.specification row) a) :
    ∃ next b, a.Widens b ∧ CutAt follow library scope depth (.specification next) b ∧
      (∀ k, CutAt follow library scope k (.specification next) b →
        CutAt follow library scope (k + 1) (.specification row) a) ∧
      ∀ c, b.Widens c → ∀ k, CutAt follow library scope k (.specification next) c →
        CutAt follow library scope (k + 1) (.specification row) c := by
  obtain ⟨_, type, heq, htype⟩ := h.exists_specType
  cases heq
  have hasks := signatureWith_asks library.module scope type
  simp only [CutAt, tokenWithin_specification htype] at h ⊢
  obtain ⟨t, -, b, hwidens, hcut, hnow, hlater⟩ := hasks.enters ha h
  obtain ⟨next, -, rfl, -⟩ := CutAt.exists_specType hcut
  exact ⟨next, b, hwidens, hcut, hnow, fun c hc k hk => hlater c hc k hk _ hasks⟩

/-- A token that is come to again deeper down is cut at every depth. -/
lemma CutAt.of_again {token : Token} (h : CutAt follow library scope depth token a)
    (hagain : ∀ k, CutAt follow library scope k token a → ∃ more > k, CutAt follow library scope more token a)
    (k : Nat) : CutAt follow library scope k token a := by
  induction k with
  | zero => exact h.anti (Nat.zero_le depth)
  | succ k ih =>
    obtain ⟨more, hmore, hcut⟩ := hagain k ih
    exact hcut.anti hmore

/-- On a chain of specifications that is cut at the depth of all rows, one is come to twice.
The second time nothing is registered any more, so it is come to over and over again. The
specifications in `seen` are those that were passed. -/
lemma CutAt.forever (ha : a.Lazy) {seen : Finset Nat}
    (hseen : seen ⊆ Finset.Icc 1 library.module.typeSpecs.size)
    (hback : ∀ other ∈ seen, ∀ c, a.Widens c → ∀ k, CutAt follow library scope k (.specification row) c →
      ∃ more > k, CutAt follow library scope more (.specification other) c)
    (hsize : library.module.typeSpecs.size ≤ depth + seen.card)
    (h : CutAt follow library scope depth (.specification row) a) (k : Nat) :
    CutAt follow library scope k (.specification row) a := by
  induction depth generalizing row a seen k with
  | zero =>
    have hmem : row ∈ seen := by
      by_contra hmem
      have hle := Finset.card_le_card (Finset.insert_subset h.mem_Icc hseen)
      rw [Finset.card_insert_of_notMem hmem, Nat.card_Icc] at hle
      omega
    exact h.of_again (hback row hmem a (.refl ha.indexed)) k
  | succ depth ih =>
    by_cases hmem : row ∈ seen
    · exact h.of_again (hback row hmem a (.refl ha.indexed)) k
    · obtain ⟨next, b, hwidens, hnext, hnow, hlater⟩ := h.enters ha
      have hback' : ∀ other ∈ insert row seen, ∀ c, b.Widens c → ∀ k,
          CutAt follow library scope k (.specification next) c →
            ∃ more > k, CutAt follow library scope more (.specification other) c := by
        intro other hother c hc k hk
        have hrow := hlater c hc k hk
        rcases Finset.mem_insert.mp hother with rfl | hother
        · exact ⟨k + 1, Nat.lt_succ_self k, hrow⟩
        · obtain ⟨more, hmore, hcut⟩ := hback other hother c (hwidens.trans hc) (k + 1) hrow
          exact ⟨more, by omega, hcut⟩
      have hsize' : library.module.typeSpecs.size ≤ depth + (insert row seen).card := by
        rw [Finset.card_insert_of_notMem hmem]
        omega
      have hforever := ih (ha.widens hwidens) (Finset.insert_subset h.mem_Icc hseen) hback' hsize' hnext
      exact (hnow k (hforever k)).anti (Nat.le_succ k)

end Work

/-- A token for a specification from which one comes to a specification that leads back to
itself. -/
def Metadata.Token.Turns (m : Metadata.Module) (token : Token) : Prop :=
  ∃ row, token = .specification row ∧ Metadata.Module.Turns m.SpecLeads row

namespace Work

/-- Resolving a token ends where no specification leads back to itself, however uses are
followed. One that does never gives a use. Where following a use loads nothing, resolving ends
with the answer that is given, or else has no end and is answered so. -/
theorem specifications_end_unless_they_turn (library : Library) (scope : Scope) (token : Token) :
    (¬token.Turns library.module → ∀ found a,
      EndsWithin found library scope library.module.typeSpecs.size token a
        ((tokenFinding found library scope token).exec a)) ∧
    (token.Turns library.module → ∀ found depth a use b,
      ¬EndsWithin found library scope depth token a (.ok use, b)) ∧
    (∀ a : Atlas, a.Lazy →
      EndsWithin follow library scope library.module.typeSpecs.size token a
          ((resolveToken library scope token).exec a) ∨
        (∀ depth result, ¬EndsWithin follow library scope depth token a result) ∧
          ((resolveToken library scope token).exec a).1 = .error .endless) ∧
    ∀ found depth a result, EndsWithin found library scope depth token a result →
      ∀ answer : Token → Work Use, (∀ t, answer t = tokenStep found library scope answer t) →
        (answer token).exec a = result := by
  have hfinding : ∀ found a, EndsWithin found library scope library.module.typeSpecs.size token a
      ((tokenFinding found library scope token).exec a) ∨
        CutAt found library scope library.module.typeSpecs.size token a := by
    intro found a
    rcases cutAt_or_endsWithin found library scope library.module.typeSpecs.size token a with hcut | ⟨result, hends⟩
    · exact .inr hcut
    · left
      rw [tokenFinding, tokenWith_eq, hends .endless]
      exact hends
  refine ⟨?_, ?_, ?_, ?_⟩
  · intro hturns found a
    rcases hfinding found a with hends | hcut
    · exact hends
    · obtain ⟨row, -, rfl, -⟩ := hcut.exists_specType
      refine absurd hcut (not_cutAt_of_not_turns (.start _ _ _) fun h => hturns ⟨row, rfl, h⟩)
  · rintro ⟨row, rfl, hturns⟩ found depth a use b hends
    exact hends.not_turns hturns
  · intro a ha
    rcases hfinding follow a with hends | hcut
    · exact .inl hends
    · obtain ⟨row, -, rfl, -⟩ := hcut.exists_specType
      have hforever := hcut.forever ha (Finset.empty_subset _) (by simp) (by simp)
      refine .inr ⟨fun depth result => (hforever depth).not_ends, ?_⟩
      obtain ⟨b, hcut⟩ := hcut
      rw [resolveToken, tokenFinding, tokenWith_eq, hcut]
  · intro found depth a result hends answer hanswer
    exact hends.exec_eq hanswer

end Work

/-- A library whose first specification is nothing but itself. -/
def ouroboros : Library where
  module := ((Metadata.Builder.ofAssembly "Rings").after (.typeSpecification (.classType (.specification 1)))).module
  location := "rings.dll"

/-- A specification may be built into its own type, and then resolving it has no end. -/
theorem Work.own_specification_has_no_end :
    (Metadata.Builder.ofAssembly "Rings").reply (.typeSpecification (.classType (.specification 1))) =
        .ok (.token (.specification 1)) ∧
      ∀ found scope depth a result, ¬EndsWithin found ouroboros scope depth (.specification 1) a result := by
  have htype : ouroboros.module.specType 1 = .ok (.classType (.specification 1)) := rfl
  refine ⟨by decide +kernel, fun found scope depth a result => ?_⟩
  have hcut : CutAt found ouroboros scope depth (.specification 1) a := by
    induction depth with
    | zero => exact ⟨a, fun limit => by simp [tokenWithin, htype, exec_bind]⟩
    | succ depth ih =>
      rw [CutAt, tokenWithin_specification htype]
      simp only [signatureWith]
      exact ih
  exact IsCut.not_ends hcut

end TypeAtlas
