import Mathlib.Data.List.Forall2
import TypeAtlas.Source.Unit

/-!
Readers on tokens whose spelling is known. `Takes` says that a reader takes exactly the
tokens of a spelling, whatever stands behind them as long as the next token is right, and
`Refuses` that it fails there. There is a rule for each way of putting readers together, so
that a grammar is followed by its own structure.
-/

namespace TypeAtlas.Source

variable {tokens rest : List Token} {texts : List String} {result : Bool}

/-- A token without its place. -/
structure Lexeme where
  kind : TokenClass
  text : String
deriving DecidableEq

abbrev Lexeme.word (text : String) : Lexeme := ⟨.word, text⟩

abbrev Lexeme.mark (text : String) : Lexeme := ⟨.mark, text⟩

def Token.lexeme (token : Token) : Lexeme := ⟨token.kind, token.text⟩

/-- Tokens in the order of their places, with nothing but blanks between them. -/
structure Plain (tokens : List Token) : Prop where
  apart : tokens.Pairwise fun first second => first.stop ≤ second.start
  filled : ∀ token ∈ tokens, token.text ≠ ""
  unnoted : ∀ token ∈ tokens, token.notes = []
  blank : ∀ token ∈ tokens, ∀ c ∈ token.gap.toList, Text.isBlank c = true

lemma Plain.behind (h : Plain (tokens ++ rest)) : Plain rest where
  apart := (List.pairwise_append.mp h.apart).2.1
  filled := fun token htoken => h.filled token (List.mem_append_right tokens htoken)
  unnoted := fun token htoken => h.unnoted token (List.mem_append_right tokens htoken)
  blank := fun token htoken => h.blank token (List.mem_append_right tokens htoken)

lemma Plain.tail {first : Token} (h : Plain (first :: rest)) : Plain rest :=
  Plain.behind (show Plain ([first] ++ rest) from h)

lemma Plain.front (h : Plain (tokens ++ rest)) : Plain tokens where
  apart := (List.pairwise_append.mp h.apart).1
  filled := fun token htoken => h.filled token (List.mem_append_left rest htoken)
  unnoted := fun token htoken => h.unnoted token (List.mem_append_left rest htoken)
  blank := fun token htoken => h.blank token (List.mem_append_left rest htoken)

/-- A token takes up room. -/
lemma Plain.start_lt (h : Plain tokens) {token : Token} (htoken : token ∈ tokens) : token.start < token.stop := by
  have hlength : token.text.length ≠ 0 := by
    rw [Ne, String.length_eq_zero_iff]
    exact h.filled token htoken
  unfold Token.stop
  omega

/-- The position behind some tokens that were taken. -/
def stopAfter (stop : Nat) (tokens : List Token) : Nat := tokens.foldl (fun _ token => token.stop) stop

lemma stopAfter_append (stop : Nat) (tokens more : List Token) :
    stopAfter stop (tokens ++ more) = stopAfter (stopAfter stop tokens) more :=
  List.foldl_append

/-- The stretch that some tokens take up. -/
def spanOf (tokens : List Token) : Span := ⟨(tokens.head?.map (·.start)).getD 0, stopAfter 0 tokens⟩

/-- What comes next where `spelling` stands before `next`. -/
def upcoming (spelling : List Lexeme) (next : Option Lexeme) : Option Lexeme := spelling.head?.or next

@[simp] lemma upcoming_nil (next : Option Lexeme) : upcoming [] next = next := rfl

@[simp] lemma upcoming_cons (lexeme : Lexeme) (spelling : List Lexeme) (next : Option Lexeme) :
    upcoming (lexeme :: spelling) next = some lexeme := rfl

@[simp] lemma upcoming_append (spelling more : List Lexeme) (next : Option Lexeme) :
    upcoming (spelling ++ more) next = upcoming spelling (upcoming more next) := by
  cases spelling <;> rfl

lemma head?_append_lexeme (tokens rest : List Token) :
    (tokens ++ rest).head?.map Token.lexeme =
      upcoming (tokens.map Token.lexeme) (rest.head?.map Token.lexeme) := by
  cases tokens <;> rfl

namespace Reader

variable {α β : Type} {p : Reader α} {s t : List Lexeme} {F G : Option Lexeme → Prop}
  {Q : List Token → α → Prop} {R : List Token → β → Prop} {text other : String} {test : Token → Bool}
  {q : Reader α} {x : α} {P : α → Prop} {f : α → Reader β} {after : Option TypeTree → Option TypeTree}

/-- A reader that takes the tokens of a spelling and gives a result as told, if what stands next
is right; `after` says what is then remembered of the variables declared. -/
def TakesTo (after : Option TypeTree → Option TypeTree) (p : Reader α) (s : List Lexeme) (F : Option Lexeme → Prop)
    (Q : List Token → α → Prop) : Prop :=
  ∀ tokens rest stop declared, tokens.map Token.lexeme = s → Plain (tokens ++ rest) →
    F (rest.head?.map Token.lexeme) →
    ∃ x, p.run ⟨tokens ++ rest, stop, declared⟩ = some (x, ⟨rest, stopAfter stop tokens, after declared⟩) ∧
      Q tokens x

/-- A reader that declares no variable. -/
abbrev Takes (p : Reader α) (s : List Lexeme) (F : Option Lexeme → Prop) (Q : List Token → α → Prop) : Prop :=
  TakesTo (fun declared => declared) p s F Q

/-- A reader that fails on a spelling. -/
def Refuses (p : Reader α) (s : List Lexeme) (F : Option Lexeme → Prop) : Prop :=
  ∀ tokens rest stop declared, tokens.map Token.lexeme = s → Plain (tokens ++ rest) →
    F (rest.head?.map Token.lexeme) → p.run ⟨tokens ++ rest, stop, declared⟩ = none

lemma run_orElse (p q : Reader α) (c : Cursor) :
    (p <|> q).run c = match p.run c with
      | some found => some found
      | none => q.run c := by
  change (p.run c <|> q.run c) = _
  cases p.run c <;> rfl

/-- Where no token is taken. -/
lemma TakesTo.nil (h : ∀ rest stop declared, Plain rest → F (rest.head?.map Token.lexeme) →
    ∃ x, p.run ⟨rest, stop, declared⟩ = some (x, ⟨rest, stop, after declared⟩) ∧ Q [] x) : TakesTo after p [] F Q := by
  intro tokens rest stop declared hspelling hplain hnext
  obtain rfl := List.map_eq_nil_iff.mp hspelling
  exact h rest stop declared hplain hnext

lemma Refuses.nil (h : ∀ rest stop declared, Plain rest → F (rest.head?.map Token.lexeme) →
    p.run ⟨rest, stop, declared⟩ = none) : Refuses p [] F := by
  intro tokens rest stop declared hspelling hplain hnext
  obtain rfl := List.map_eq_nil_iff.mp hspelling
  exact h rest stop declared hplain hnext

lemma TakesTo.pure (h : Q [] x) : Takes (Pure.pure x) [] F Q := .nil fun _ _ _ _ _ => ⟨x, rfl, h⟩

lemma TakesTo.imp {Q' : List Token → α → Prop} (h : TakesTo after p s F Q)
    (hpost : ∀ tokens x, Q tokens x → Q' tokens x) : TakesTo after p s F Q' := by
  intro tokens rest stop declared hspelling hplain hnext
  obtain ⟨x, hrun, hx⟩ := h tokens rest stop declared hspelling hplain hnext
  exact ⟨x, hrun, hpost tokens x hx⟩

lemma TakesTo.follow (h : TakesTo after p s F Q) (hfollow : ∀ next, G next → F next) : TakesTo after p s G Q :=
  fun tokens rest stop declared hspelling hplain hnext => h tokens rest stop declared hspelling hplain (hfollow _ hnext)

lemma TakesTo.spelled (h : TakesTo after p s F Q) :
    TakesTo after p s F fun tokens x => Q tokens x ∧ tokens.map Token.lexeme = s ∧ Plain tokens := by
  intro tokens rest stop declared hspelling hplain hnext
  obtain ⟨x, hrun, hx⟩ := h tokens rest stop declared hspelling hplain hnext
  exact ⟨x, hrun, hx, hspelling, hplain.front⟩

/-- Of two readers in a row, both may declare a variable. -/
lemma TakesTo.comp {later : Option TypeTree → Option TypeTree} (h : TakesTo after p s F Q)
    (hf : ∀ tokens x, Q tokens x → TakesTo later (f x) t G fun more y => R (tokens ++ more) y)
    (hfollow : ∀ next, G next → F (upcoming t next)) : TakesTo (later ∘ after) (p >>= f) (s ++ t) G R := by
  intro tokens rest stop declared hspelling hplain hnext
  obtain ⟨first, second, rfl, hfirst, hsecond⟩ := List.map_eq_append_iff.mp hspelling
  rw [List.append_assoc] at hplain
  obtain ⟨x, hrun, hx⟩ := h first (second ++ rest) stop declared hfirst hplain (by
    rw [head?_append_lexeme, hsecond]
    exact hfollow _ hnext)
  obtain ⟨y, hrun', hy⟩ := hf first x hx second rest (stopAfter stop first) (after declared) hsecond hplain.behind hnext
  refine ⟨y, ?_, hy⟩
  rw [List.append_assoc, StateT.run_bind, hrun, stopAfter_append]
  exact hrun'

lemma TakesTo.bind (h : Takes p s F Q)
    (hf : ∀ tokens x, Q tokens x → TakesTo after (f x) t G fun more y => R (tokens ++ more) y)
    (hfollow : ∀ next, G next → F (upcoming t next)) : TakesTo after (p >>= f) (s ++ t) G R :=
  h.comp hf hfollow

/-- Behind a reader that does not mind what stands next. -/
lemma TakesTo.andThen (h : Takes p s (fun _ => True) Q)
    (hf : ∀ tokens x, Q tokens x → TakesTo after (f x) t G fun more y => R (tokens ++ more) y) :
    TakesTo after (p >>= f) (s ++ t) G R :=
  h.bind hf fun _ _ => trivial

lemma TakesTo.before (h : TakesTo after p s F Q)
    (hf : ∀ tokens x, Q tokens x → Takes (f x) t G fun more y => R (tokens ++ more) y)
    (hfollow : ∀ next, G next → F (upcoming t next)) : TakesTo after (p >>= f) (s ++ t) G R :=
  h.comp hf hfollow

lemma TakesTo.bind_nil (h : TakesTo after p s F Q)
    (hf : ∀ tokens x, Q tokens x → Takes (f x) [] F fun _ y => R tokens y) : TakesTo after (p >>= f) s F R := by
  have hbind : TakesTo after (p >>= f) (s ++ []) F R := by
    refine h.before (fun tokens x hx => (hf tokens x hx).spelled.imp fun more y hy => ?_) fun _ hnext => hnext
    obtain rfl := List.map_eq_nil_iff.mp hy.2.1
    exact (List.append_nil tokens).symm ▸ hy.1
  rwa [List.append_nil] at hbind

/-- A reader that only looks, and one behind it. -/
lemma TakesTo.look (h : Takes p [] F fun _ x => P x) (hf : ∀ x, P x → TakesTo after (f x) t G R)
    (hfollow : ∀ next, G next → F (upcoming t next)) : TakesTo after (p >>= f) t G R := by
  refine h.spelled.bind (s := []) (fun tokens x hx => ?_) hfollow
  obtain rfl := List.map_eq_nil_iff.mp hx.2.1
  exact hf x hx.1

/-- Whatever is seen. -/
lemma TakesTo.look_any (h : Takes p [] (fun _ => True) fun _ _ => True) (hf : ∀ x, TakesTo after (f x) t G R) :
    TakesTo after (p >>= f) t G R :=
  h.look (P := fun _ => True) (fun x _ => hf x) fun _ _ => trivial

lemma TakesTo.look_eq (h : Takes p [] F fun _ y => y = x) (hf : TakesTo after (f x) t G R)
    (hfollow : ∀ next, G next → F (upcoming t next)) : TakesTo after (p >>= f) t G R :=
  h.look (fun _ heq => heq ▸ hf) hfollow

/-- A reader with its result changed at the end. -/
lemma TakesTo.bind_pure {f : α → β} (h : TakesTo after p s F Q)
    (hpost : ∀ tokens x, Q tokens x → R tokens (f x)) : TakesTo after (p >>= fun x => Pure.pure (f x)) s F R :=
  h.bind_nil fun tokens x hx => .pure (hpost tokens x hx)

lemma Refuses.follow (h : Refuses p s F) (hfollow : ∀ next, G next → F next) : Refuses p s G :=
  fun tokens rest stop declared hspelling hplain hnext =>
    h tokens rest stop declared hspelling hplain (hfollow _ hnext)

/-- What fails at the next token fails before every spelling that begins with it. -/
lemma Refuses.before (h : Refuses p [] F) (hfollow : ∀ next, G next → F (upcoming s next)) :
    Refuses p s G := by
  intro tokens rest stop declared hspelling hplain hnext
  refine h [] (tokens ++ rest) stop declared rfl hplain ?_
  rw [head?_append_lexeme, hspelling]
  exact hfollow _ hnext

lemma Refuses.bind (h : Refuses p s F) : Refuses (p >>= f) s F := by
  intro tokens rest stop declared hspelling hplain hnext
  rw [StateT.run_bind, h tokens rest stop declared hspelling hplain hnext]
  rfl

/-- A reader that fails behind another. -/
lemma TakesTo.refuse (h : Takes p s F Q) (hf : ∀ tokens x, Q tokens x → Refuses (f x) t G)
    (hfollow : ∀ next, G next → F (upcoming t next)) : Refuses (p >>= f) (s ++ t) G := by
  intro tokens rest stop declared hspelling hplain hnext
  obtain ⟨first, second, rfl, hfirst, hsecond⟩ := List.map_eq_append_iff.mp hspelling
  rw [List.append_assoc] at hplain
  obtain ⟨x, hrun, hx⟩ := h first (second ++ rest) stop declared hfirst hplain (by
    rw [head?_append_lexeme, hsecond]
    exact hfollow _ hnext)
  rw [List.append_assoc, StateT.run_bind, hrun]
  exact hf first x hx second rest (stopAfter stop first) declared hsecond hplain.behind hnext

lemma TakesTo.andRefuse (h : Takes p s (fun _ => True) Q) (hf : ∀ x, Refuses (f x) t G) : Refuses (p >>= f) (s ++ t) G :=
  h.refuse (fun _ x _ => hf x) fun _ _ => trivial

lemma TakesTo.look_refuse (h : Takes p [] F fun _ x => P x) (hf : ∀ x, P x → Refuses (f x) [] F) :
    Refuses (p >>= f) [] F :=
  h.refuse (fun _ x hx => hf x hx) fun _ hnext => hnext

lemma TakesTo.look_refuse_eq (h : Takes p [] F fun _ y => y = x) (hf : Refuses (f x) [] F) : Refuses (p >>= f) [] F :=
  h.look_refuse fun _ heq => heq ▸ hf

lemma Refuses.failure : Refuses (failure : Reader α) s F := fun _ _ _ _ _ _ _ => rfl

lemma TakesTo.orElse_left (h : TakesTo after p s F Q) : TakesTo after (p <|> q) s F Q := by
  intro tokens rest stop declared hspelling hplain hnext
  obtain ⟨x, hrun, hx⟩ := h tokens rest stop declared hspelling hplain hnext
  exact ⟨x, by rw [run_orElse, hrun], hx⟩

lemma TakesTo.orElse_right (hp : Refuses p s F) (hq : TakesTo after q s F Q) : TakesTo after (p <|> q) s F Q := by
  intro tokens rest stop declared hspelling hplain hnext
  obtain ⟨x, hrun, hx⟩ := hq tokens rest stop declared hspelling hplain hnext
  exact ⟨x, by rw [run_orElse, hp tokens rest stop declared hspelling hplain hnext, hrun], hx⟩

lemma Refuses.orElse (hp : Refuses p s F) (hq : Refuses q s F) : Refuses (p <|> q) s F := by
  intro tokens rest stop declared hspelling hplain hnext
  rw [run_orElse, hp tokens rest stop declared hspelling hplain hnext]
  exact hq tokens rest stop declared hspelling hplain hnext

lemma TakesTo.map {f : α → β} (h : TakesTo after p s F Q) (hpost : ∀ tokens x, Q tokens x → R tokens (f x)) :
    TakesTo after (f <$> p) s F R := by
  rw [map_eq_pure_bind]
  exact h.bind_pure hpost

lemma Refuses.map {f : α → β} (h : Refuses p s F) : Refuses (f <$> p) s F := by
  rw [map_eq_pure_bind]
  exact h.bind

lemma TakesTo.optional_some (h : TakesTo after p s F Q) :
    TakesTo after (optional p) s F fun tokens found => ∃ x, found = some x ∧ Q tokens x :=
  TakesTo.orElse_left (h.map fun _ x hx => ⟨x, rfl, hx⟩)

lemma TakesTo.optional_none (h : Refuses p [] F) : Takes (optional p) [] F fun _ found => found = none :=
  TakesTo.orElse_right h.map (.pure rfl)

/-! Single tokens. -/

lemma next_takes (lexeme : Lexeme) :
    Takes next [lexeme] F fun tokens x => tokens = [x] ∧ x.lexeme = lexeme := by
  intro tokens rest stop declared hspelling _ _
  obtain ⟨token, rfl, hlexeme⟩ := List.map_eq_singleton_iff.mp hspelling
  exact ⟨token, rfl, rfl, hlexeme⟩

lemma nextIf_takes {lexeme : Lexeme} (h : ∀ token : Token, token.lexeme = lexeme → test token = true) :
    Takes (nextIf test) [lexeme] F fun tokens x => tokens = [x] ∧ x.lexeme = lexeme := by
  intro tokens rest stop declared hspelling _ _
  obtain ⟨token, rfl, hlexeme⟩ := List.map_eq_singleton_iff.mp hspelling
  refine ⟨token, ?_, rfl, hlexeme⟩
  change (if test token then _ else _ : Reader Token).run _ = _
  rw [if_pos (h token hlexeme)]
  rfl

lemma nextIf_refuses (h : ∀ token : Token, F (some token.lexeme) → test token = false) :
    Refuses (nextIf test) [] F := by
  refine .nil fun rest stop declared _ hnext => ?_
  cases rest with
  | nil => rfl
  | cons token rest =>
    change (if test token then _ else _ : Reader Token).run _ = _
    rw [h token hnext]
    rfl

lemma isMark_eq (text : String) (token : Token) : isMark text token = (token.lexeme == .mark text) := by
  obtain ⟨kind, word, start, gap, notes⟩ := token
  rw [Bool.eq_iff_iff]
  simp [isMark, Token.lexeme]

lemma isWord_eq (text : String) (token : Token) : isWord text token = (token.lexeme == .word text) := by
  obtain ⟨kind, word, start, gap, notes⟩ := token
  rw [Bool.eq_iff_iff]
  simp [isWord, Token.lexeme]

lemma isWord_kind (token : Token) : (token.kind == .word) = (token.lexeme.kind == .word) := rfl

lemma isMark_eq_false {token : Token} (h : some token.lexeme ≠ some (.mark text)) : isMark text token = false := by
  rw [isMark_eq, beq_eq_false_iff_ne]
  exact fun heq => h (congrArg some heq)

lemma isWord_eq_false {token : Token} (h : some token.lexeme ≠ some (.word text)) : isWord text token = false := by
  rw [isWord_eq, beq_eq_false_iff_ne]
  exact fun heq => h (congrArg some heq)

lemma mark_takes (text : String) : Takes (mark text) [.mark text] F fun _ _ => True := by
  refine (nextIf_takes fun token htoken => ?_).bind_pure fun _ _ _ => trivial
  rw [isMark_eq, htoken, beq_self_eq_true]

lemma keyword_takes (text : String) : Takes (keyword text) [.word text] F fun _ _ => True := by
  refine (nextIf_takes fun token htoken => ?_).bind_pure fun _ _ _ => trivial
  rw [isWord_eq, htoken, beq_self_eq_true]

lemma anyWord_takes (text : String) : Takes (nextIf (·.kind == .word)) [.word text] F fun _ token => token.text = text := by
  refine (nextIf_takes fun token htoken => ?_).imp fun _ _ htoken => congrArg Lexeme.text htoken.2
  rw [isWord_kind, htoken]
  rfl

lemma name_takes (text : String) : Takes name [.word text] F fun _ found => found = text :=
  (anyWord_takes text).bind_pure fun _ _ htext => htext

lemma ne_of_text_ne {kind : TokenClass} (h : text ≠ other) (next : Option Lexeme) (hnext : next = some ⟨kind, other⟩) :
    next ≠ some ⟨kind, text⟩ := by
  rintro rfl
  exact h (congrArg Lexeme.text (Option.some.inj hnext))

lemma mark_refuses (h : ∀ next, F next → next ≠ some (.mark text)) : Refuses (mark text) [] F :=
  (nextIf_refuses fun _ htoken => isMark_eq_false (h _ htoken)).bind

lemma mark_refuses_other (h : text ≠ other) : Refuses (mark text) [] (· = some (.mark other)) :=
  mark_refuses (ne_of_text_ne h)

lemma keyword_refuses (h : ∀ next, F next → next ≠ some (.word text)) : Refuses (keyword text) [] F :=
  (nextIf_refuses fun _ htoken => isWord_eq_false (h _ htoken)).bind

lemma keyword_refuses_other (h : text ≠ other) : Refuses (keyword text) [] (· = some (.word other)) :=
  keyword_refuses (ne_of_text_ne h)

lemma name_refuses (h : ∀ text, ¬ F (some (.word text))) : Refuses name [] F := by
  refine (nextIf_refuses fun token htoken => ?_).bind
  rw [beq_eq_false_iff_ne]
  intro hkind
  apply h token.text
  rwa [Token.lexeme, hkind] at htoken

/-! Looking at what comes next. -/

lemma peek?_takes (h : ∀ next : Option Token, F (next.map Token.lexeme) → next.any test = result) :
    Takes (do return (← peek?).any test) [] F fun _ found => found = result :=
  .nil fun rest _ _ _ hnext => ⟨_, rfl, h rest.head? hnext⟩

lemma atMark_takes (h : ∀ next, F next → (next == some (.mark text)) = result) :
    Takes (atMark text) [] F fun _ found => found = result := by
  refine peek?_takes fun next hnext => ?_
  rw [← h _ hnext]
  cases next with
  | none => rfl
  | some token => exact isMark_eq text token

lemma get_looks : Takes (get : Reader Cursor) [] F fun _ _ => True := .nil fun _ _ _ _ _ => ⟨_, rfl, trivial⟩

lemma atMark_looks (text : String) : Takes (atMark text) [] F fun _ _ => True := .nil fun _ _ _ _ _ => ⟨_, rfl, trivial⟩

lemma atMark_finds (text : String) : Takes (atMark text) [] (· = some (.mark text)) fun _ found => found = true :=
  atMark_takes fun next hnext => by rw [hnext, beq_self_eq_true]

lemma atMark_passes (h : ∀ next, F next → next ≠ some (.mark text)) :
    Takes (atMark text) [] F fun _ found => found = false :=
  atMark_takes fun next hnext => beq_eq_false_iff_ne.mpr (h next hnext)

lemma atMark_other (h : text ≠ other) :
    Takes (atMark text) [] (· = some (.mark other)) fun _ found => found = false :=
  atMark_passes (ne_of_text_ne h)

lemma atKeyword_passes (h : ∀ next, F next → next ≠ some (.word text)) :
    Takes (atKeyword text) [] F fun _ found => found = false := by
  refine peek?_takes fun next hnext => ?_
  cases next with
  | none => rfl
  | some token => exact isWord_eq_false (h _ hnext)

lemma isAnyWord_eq_false {words : List String} (h : ∀ word, F (some (.word word)) → word ∉ words) {token : Token}
    (htoken : F (some token.lexeme)) : (token.kind == .word && words.contains token.text) = false := by
  rw [Bool.and_eq_false_iff]
  by_cases hkind : token.kind = .word
  · refine .inr ?_
    rw [List.contains_eq_mem, decide_eq_false_iff_not]
    apply h token.text
    rwa [Token.lexeme, hkind] at htoken
  · exact .inl (beq_eq_false_iff_ne.mpr hkind)

lemma atAnyKeyword_passes (h : ∀ text, F (some (.word text)) → text ∉ texts) :
    Takes (atAnyKeyword texts) [] F fun _ found => found = false := by
  refine peek?_takes fun next hnext => ?_
  cases next with
  | none => rfl
  | some token => exact isAnyWord_eq_false h hnext

lemma atAnyKeyword_other {word : String} (h : word ∉ texts) :
    Takes (atAnyKeyword texts) [] (· = some (.word word)) fun _ found => found = false := by
  apply atAnyKeyword_passes
  intro other heq
  rwa [show other = word from congrArg Lexeme.text (Option.some.inj heq)]

lemma ahead_takes (tests : List (Token → Bool)) : Takes (ahead tests) [] F fun _ _ => True :=
  .nil fun _ _ _ _ _ => ⟨_, rfl, trivial⟩

lemma markIf_passes (h : ∀ next, F next → next ≠ some (.mark text)) :
    Takes (markIf text) [] F fun _ found => found = false :=
  (atMark_passes h).look_eq (.pure rfl) fun _ hnext => hnext

lemma markIf_other (h : text ≠ other) :
    Takes (markIf text) [] (· = some (.mark other)) fun _ found => found = false :=
  markIf_passes (ne_of_text_ne h)

lemma keywordIf_takes (text : String) : Takes (keywordIf text) [.word text] F fun _ found => found = true := by
  have hlook : Takes (atKeyword text) [] (· = some (.word text)) fun _ found => found = true := by
    refine peek?_takes fun next hnext => ?_
    obtain ⟨token, rfl, htoken⟩ := Option.map_eq_some_iff.mp hnext
    rw [Option.any_some, isWord_eq, htoken, beq_self_eq_true]
  refine hlook.look_eq ?_ fun _ _ => rfl
  exact (next_takes _).bind_pure fun _ _ _ => rfl

lemma keywordIf_passes (h : ∀ next, F next → next ≠ some (.word text)) :
    Takes (keywordIf text) [] F fun _ found => found = false :=
  (atKeyword_passes h).look_eq (.pure rfl) fun _ hnext => hnext

/-- No notes stand before plain tokens. -/
lemma notes_takes : Takes notes [] F fun _ found => found = [] := by
  refine .nil fun rest _ _ hplain _ => ⟨_, rfl, ?_⟩
  cases rest with
  | nil => rfl
  | cons token rest => exact hplain.unnoted token List.mem_cons_self

/-! Lists. -/

lemma upcoming_flatMap {ι : Type} {items : List ι} {spell : ι → List Lexeme} {next : Option Lexeme}
    (hitems : ∀ i ∈ items, spell i ≠ [] ∧ F (spell i).head?) (hnext : F next) :
    F (upcoming (items.flatMap spell) next) := by
  cases items with
  | nil => exact hnext
  | cons i items =>
    obtain ⟨hne, hfirst⟩ := hitems i List.mem_cons_self
    obtain ⟨lexeme, rest, hspell⟩ := List.exists_cons_of_ne_nil hne
    rw [hspell] at hfirst
    rw [List.flatMap_cons, hspell]
    exact hfirst

lemma length_le_length_flatMap {ι : Type} {items : List ι} {spell : ι → List Lexeme}
    (h : ∀ i ∈ items, spell i ≠ []) : items.length ≤ (items.flatMap spell).length := by
  induction items with
  | nil => exact Nat.le_refl 0
  | cons i items ih =>
    have hfirst := List.length_pos_iff.mpr (h i List.mem_cons_self)
    have hrest := ih (List.forall_mem_cons.mp h).2
    rw [List.flatMap_cons, List.length_append, List.length_cons]
    omega

section Many

variable {ι : Type} {items : List ι} {spell : ι → List Lexeme} {T : ι → α → Prop}

lemma TakesTo.upTo_none (hstop : Refuses p [] F) (n : Nat) : Takes (Reader.upTo p n) [] F fun _ xs => xs = [] := by
  cases n with
  | zero => exact .pure rfl
  | succ n => exact (TakesTo.optional_none hstop).look_eq (.pure rfl) fun _ hnext => hnext

lemma TakesTo.many_none (hstop : Refuses p [] F) : Takes (Reader.many p) [] F fun _ xs => xs = [] :=
  get_looks.look_any fun _ => upTo_none hstop _

/-- As often as possible, where there is one item. -/
lemma TakesTo.many_one (h : TakesTo after p s F Q) (hs : s ≠ []) (hfollow : ∀ next, G next → F next)
    (hstop : Refuses p [] G) : TakesTo after (Reader.many p) s G fun tokens xs => ∃ x, xs = [x] ∧ Q tokens x := by
  intro tokens rest stop declared hspelling
  obtain ⟨n, hn⟩ : ∃ n, (tokens ++ rest).length = n + 1 := by
    cases tokens with
    | nil => exact absurd hspelling.symm hs
    | cons first others => exact ⟨_, rfl⟩
  have honce : TakesTo after (Reader.upTo p (n + 1)) s G fun tokens xs => ∃ x, xs = [x] ∧ Q tokens x := by
    refine (h.follow hfollow).optional_some.bind_nil ?_
    rintro tokens _ ⟨x, rfl, hx⟩
    exact (upTo_none hstop n).bind_pure fun _ _ hxs => ⟨x, by rw [hxs], hx⟩
  rw [← hn] at honce
  exact honce tokens rest stop declared hspelling

section Follow

variable {H : ι → Option Lexeme → Prop}

lemma TakesTo.upTo {n : Nat} (hn : items.length ≤ n) (htake : ∀ i ∈ items, Takes p (spell i) (H i) fun _ => T i)
    (hitems : ∀ i ∈ items, spell i ≠ []) (hpairs : items.Pairwise fun i j => H i (spell j).head?)
    (hlast : ∀ i ∈ items, ∀ next, G next → H i next) (hstop : Refuses p [] G) :
    Takes (upTo p n) (items.flatMap spell) G fun _ => List.Forall₂ T items := by
  induction items generalizing n with
  | nil => exact (upTo_none hstop n).imp fun _ _ hxs => hxs ▸ .nil
  | cons i items ih =>
    obtain ⟨n, rfl⟩ : ∃ k, n = k + 1 := ⟨n - 1, by simp at hn; omega⟩
    obtain ⟨hfirst, hpairs⟩ := List.pairwise_cons.mp hpairs
    have hrest := ih (Nat.le_of_succ_le_succ hn) (List.forall_mem_cons.mp htake).2
      (List.forall_mem_cons.mp hitems).2 hpairs (List.forall_mem_cons.mp hlast).2
    refine (htake i List.mem_cons_self).optional_some.bind ?_ ?_
    · rintro tokens _ ⟨x, rfl, hx⟩
      exact hrest.bind_pure fun more xs hxs => .cons hx hxs
    · intro next hnext
      exact upcoming_flatMap (fun j hj => ⟨hitems j (List.mem_cons_of_mem i hj), hfirst j hj⟩)
        (hlast i List.mem_cons_self next hnext)

/-- As often as possible: the items of a list, each with what may follow it. Behind the last
nothing more can be read. -/
lemma TakesTo.many_each (htake : ∀ i ∈ items, Takes p (spell i) (H i) fun _ => T i) (hitems : ∀ i ∈ items, spell i ≠ [])
    (hpairs : items.Pairwise fun i j => H i (spell j).head?) (hlast : ∀ i ∈ items, ∀ next, G next → H i next)
    (hstop : Refuses p [] G) : Takes (many p) (items.flatMap spell) G fun _ => List.Forall₂ T items := by
  intro tokens rest stop declared hspelling hplain hnext
  have hlength : items.length ≤ (tokens ++ rest).length := by
    have hcount := length_le_length_flatMap hitems
    have hmap := congrArg List.length hspelling
    rw [List.length_map] at hmap
    rw [List.length_append]
    omega
  exact TakesTo.upTo hlength htake hitems hpairs hlast hstop tokens rest stop declared hspelling hplain hnext

end Follow

/-- As often as possible, where each item may follow each. -/
lemma TakesTo.many (htake : ∀ i ∈ items, Takes p (spell i) F fun _ => T i)
    (hitems : ∀ i ∈ items, spell i ≠ [] ∧ F (spell i).head?) (hlast : ∀ next, G next → F next)
    (hstop : Refuses p [] G) : Takes (many p) (items.flatMap spell) G fun _ => List.Forall₂ T items :=
  TakesTo.many_each htake (fun i hi => (hitems i hi).1)
    (List.pairwise_iff_forall_sublist.mpr fun hsub => (hitems _ (hsub.subset (by simp))).2) (fun _ _ => hlast) hstop

lemma eq_map_of_forall₂ {f : ι → α} {xs : List α} (h : List.Forall₂ (fun i x => x = f i) items xs) :
    xs = items.map f := by
  induction h with
  | nil => rfl
  | cons hfirst _ ih => rw [List.map_cons, hfirst, ih]

def commas (spell : ι → List Lexeme) : List ι → List Lexeme
  | [] => []
  | i :: items => spell i ++ items.flatMap fun j => .mark "," :: spell j

lemma commas_map {κ : Type} (spell : ι → List Lexeme) (f : κ → ι) (items : List κ) :
    commas spell (items.map f) = commas (fun i => spell (f i)) items := by
  cases items with
  | nil => rfl
  | cons i items => rw [List.map_cons, commas, commas, List.flatMap_map]

lemma length_le_length_commas {i : ι} (h : i ∈ items) : (spell i).length ≤ (commas spell items).length := by
  cases items with
  | nil => cases h
  | cons first rest =>
    rw [commas, List.length_append]
    rcases List.mem_cons.mp h with rfl | h
    · omega
    · obtain ⟨front, back, rfl⟩ := List.append_of_mem h
      rw [List.flatMap_append, List.flatMap_cons, List.length_append, List.length_append, List.length_cons]
      omega

lemma TakesTo.commaList1 {i : ι} (htake : ∀ j ∈ i :: items, Takes p (spell j) F fun _ x => T j x)
    (hcomma : F (some (.mark ","))) (hlast : ∀ next, G next → F next ∧ next ≠ some (.mark ",")) :
    Takes (Reader.commaList1 p) (commas spell (i :: items)) G fun _ xs => List.Forall₂ T (i :: items) xs := by
  refine (htake i List.mem_cons_self).bind (fun _ x hx => ?_) fun next hnext => ?_
  · have hmany : Takes (Reader.many do
        mark ","
        p) (items.flatMap fun j => .mark "," :: spell j) G fun _ => List.Forall₂ T items := by
      refine TakesTo.many (F := F) (fun j hj => ?_) (fun j _ => ⟨by simp, hcomma⟩) (fun next h => (hlast next h).1) ?_
      · exact (mark_takes ",").andThen (s := [.mark ","]) fun _ _ _ => htake j (List.mem_cons_of_mem i hj)
      · exact (mark_refuses fun next hnext => (hlast next hnext).2).bind
    exact hmany.bind_pure fun _ xs hxs => .cons hx hxs
  · exact upcoming_flatMap (fun j _ => ⟨by simp, hcomma⟩) (hlast next hnext).1

lemma TakesTo.commaList (htake : ∀ j ∈ items, Takes p (spell j) F fun _ x => T j x)
    (hcomma : F (some (.mark ","))) (hlast : ∀ next, G next → F next ∧ next ≠ some (.mark ","))
    (hstop : Refuses p [] G) :
    Takes (Reader.commaList p) (commas spell items) G fun _ xs => List.Forall₂ T items xs := by
  cases items with
  | nil => exact TakesTo.orElse_right hstop.bind (.pure .nil)
  | cons i items => exact TakesTo.orElse_left (TakesTo.commaList1 htake hcomma hlast)

end Many

/-! Readers that pass over nothing. -/

/-- A reader that takes no token before a spelling. -/
def Passes (p : Reader α) (s : List Lexeme) (F : Option Lexeme → Prop) (P : α → Prop) : Prop :=
  ∀ tokens rest stop declared, tokens.map Token.lexeme = s → Plain (tokens ++ rest) →
    F (rest.head?.map Token.lexeme) →
    ∃ x, p.run ⟨tokens ++ rest, stop, declared⟩ = some (x, ⟨tokens ++ rest, stop, declared⟩) ∧ P x

lemma Passes.bind (h : Passes p s F P) (hf : ∀ x, P x → Takes (f x) s F R) : Takes (p >>= f) s F R := by
  intro tokens rest stop declared hspelling hplain hnext
  obtain ⟨x, hrun, hx⟩ := h tokens rest stop declared hspelling hplain hnext
  obtain ⟨y, hrun', hy⟩ := hf x hx tokens rest stop declared hspelling hplain hnext
  refine ⟨y, ?_, hy⟩
  rw [StateT.run_bind, hrun]
  exact hrun'

/-- A reader that fails behind one that takes nothing. -/
lemma Passes.refuse (h : Passes p s F P) (hf : ∀ x, P x → Refuses (f x) s F) : Refuses (p >>= f) s F := by
  intro tokens rest stop declared hspelling hplain hnext
  obtain ⟨x, hrun, hx⟩ := h tokens rest stop declared hspelling hplain hnext
  rw [StateT.run_bind, hrun]
  exact hf x hx tokens rest stop declared hspelling hplain hnext

lemma Passes.bind_pure {f : α → β} (h : Passes p s F P) :
    Passes (p >>= fun x => Pure.pure (f x)) s F fun _ => True := by
  intro tokens rest stop declared hspelling hplain hnext
  obtain ⟨x, hrun, -⟩ := h tokens rest stop declared hspelling hplain hnext
  refine ⟨f x, ?_, trivial⟩
  rw [StateT.run_bind, hrun]
  rfl

lemma Passes.many (h : Refuses p s F) : Passes (Reader.many p) s F fun xs => xs = [] := by
  intro tokens rest stop declared hspelling hplain hnext
  have hnone : (optional p).run ⟨tokens ++ rest, stop, declared⟩ = some (none, ⟨tokens ++ rest, stop, declared⟩) := by
    change ((some <$> p) <|> Pure.pure none : Reader (Option α)).run _ = _
    rw [run_orElse, h.map tokens rest stop declared hspelling hplain hnext]
    rfl
  refine ⟨[], ?_, rfl⟩
  change (Reader.upTo p (tokens ++ rest).length).run ⟨tokens ++ rest, stop, declared⟩ = _
  cases (tokens ++ rest).length with
  | zero => rfl
  | succ n =>
    rw [Reader.upTo, StateT.run_bind, hnone]
    rfl

/-! The text behind some tokens. -/

lemma le_stopAfter (stop : Nat) (hplain : Plain tokens) {token : Token} (htoken : token ∈ tokens) :
    token.stop ≤ stopAfter stop tokens := by
  induction tokens generalizing stop token with
  | nil => cases htoken
  | cons first rest ih =>
    rcases List.mem_cons.mp htoken with rfl | htoken
    · cases rest with
      | nil => exact Nat.le_refl _
      | cons second rest =>
        have hmem : second ∈ second :: rest := List.mem_cons_self
        have hapart := List.rel_of_pairwise_cons hplain.apart hmem
        have hroom := hplain.tail.start_lt hmem
        have hsecond := ih token.stop hplain.tail hmem
        change token.stop ≤ stopAfter token.stop (second :: rest)
        omega
    · exact ih first.stop hplain.tail htoken

lemma stopAfter_mem (stop : Nat) (h : tokens ≠ []) : ∃ token ∈ tokens, stopAfter stop tokens = token.stop := by
  obtain ⟨init, last, rfl⟩ := List.eq_nil_or_concat' tokens |>.resolve_left h
  refine ⟨last, List.mem_append_right init List.mem_cons_self, ?_⟩
  rw [stopAfter_append]
  rfl

/-- The tokens that were taken are those that begin before the position behind them. -/
lemma takeWhile_taken (stop : Nat) (hplain : Plain (tokens ++ rest)) (h : tokens ≠ []) :
    (tokens ++ rest).takeWhile (·.start < stopAfter stop tokens) = tokens := by
  rw [List.takeWhile_append_of_pos]
  · cases rest with
    | nil => exact List.append_nil tokens
    | cons next rest =>
      obtain ⟨last, hlast, hstop⟩ := stopAfter_mem stop h
      have hapart := (List.pairwise_append.mp hplain.apart).2.2 last hlast next List.mem_cons_self
      rw [List.takeWhile_cons_of_neg, List.append_nil]
      rw [hstop, decide_eq_true_eq]
      omega
  · intro token htoken
    have hroom := hplain.front.start_lt htoken
    have hle := le_stopAfter stop hplain.front htoken
    rw [decide_eq_true_eq]
    omega

lemma TakesTo.withText (h : TakesTo after p s F Q) (hs : s ≠ []) :
    TakesTo after (Reader.withText p) s F fun tokens found =>
      Q tokens found.1 ∧ found.2 = (textOf tokens, spanOf tokens) := by
  intro tokens rest stop declared hspelling hplain hnext
  obtain ⟨x, hrun, hx⟩ := h tokens rest stop declared hspelling hplain hnext
  have hne : tokens ≠ [] := by
    rintro rfl
    exact hs hspelling.symm
  have htaken := takeWhile_taken stop hplain hne
  obtain ⟨first, others, rfl⟩ := List.exists_cons_of_ne_nil hne
  refine ⟨(x, textOf (first :: others), ⟨first.start, stopAfter stop (first :: others)⟩), ?_, hx, rfl⟩
  unfold Reader.withText
  simp only [StateT.run_bind, StateT.run_get, Option.bind_eq_bind, Option.bind_some, Option.pure_def, hrun, htaken]
  rfl

lemma Refuses.withText (h : Refuses p s F) : Refuses (Reader.withText p) s F := by
  intro tokens rest stop declared hspelling hplain hnext
  have hrun := h tokens rest stop declared hspelling hplain hnext
  unfold Reader.withText
  simp only [StateT.run_bind, StateT.run_get, Option.bind_eq_bind, Option.bind_some, Option.pure_def, hrun,
    Option.bind_none]

end Reader

end TypeAtlas.Source
