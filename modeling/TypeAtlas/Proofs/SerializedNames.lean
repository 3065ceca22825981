import Mathlib.Data.Bool.AllAny
import TypeAtlas.Proofs.PlainNames

/-!
Types in serialized names. Arguments, arrays and assemblies share their brackets and commas, and
`convert` tells them apart by what stands next and by counting brackets. Main statement: the
serialized name of every type is converted to the type as it is written in source, without its
assembly and without those of its arguments at any depth (`Tree.written_serialized`).
-/

namespace TypeAtlas.Metadata.TypeName

variable {c : Char} {rest : List Char} {arity : Nat}

/-- A name without the characters that mean something in a serialized name. -/
structure Identifier where
  text : String
  plain : ∀ c ∈ text.toList, Text.isBlank c = false ∧ c ∉ ['[', ']', ',', '+', '.', '`'] := by
    exact List.all_iff_forall_prop.mp (by decide)

/-- What is said of an assembly: its name, and perhaps its version and more. -/
structure Assembly where
  text : String
  plain : ∀ c ∈ text.toList, c ≠ '[' ∧ c ≠ ']' := by exact List.all_iff_forall_prop.mp (by decide)

/-- How a part of a path belongs to the part before it. -/
inductive Joint where
  | member | nested

def Joint.mark : Joint → String
  | member => "."
  | nested => "+"

structure Path where
  first : Identifier
  rest : List (Joint × Identifier) := []

def Path.textWith (mark : Joint → String) (path : Path) : String :=
  path.first.text ++ String.join (path.rest.map fun part => mark part.1 ++ part.2.text)

/-- A type as the runtime names it. -/
inductive Tree where
  | mk (path : Path) (args : List Tree) (ranks : List Nat) (assembly : Option Assembly)

namespace Tree

def qualification (assembly : Option Assembly) : String :=
  (assembly.map fun name => ", " ++ name.text).getD ""

/-- Arguments in a serialized name. -/
def listed (texts : List String) : String :=
  if texts.isEmpty then "" else "[" ++ Text.joinWith "," (texts.map fun text => "[" ++ text ++ "]") ++ "]"

/-- Arguments in source. -/
def angled (texts : List String) : String :=
  if texts.isEmpty then "" else "<" ++ Text.joinWith ", " texts ++ ">"

mutual

/-- The name that is stored for a type. -/
def serialized : Tree → String
  | mk path args ranks assembly =>
    markArity (path.textWith Joint.mark) args.length ++ listed (serializedEach args) ++
      ArrayShape.suffix ⟨ranks⟩ ++ qualification assembly

def serializedEach : List Tree → List String
  | [] => []
  | tree :: trees => tree.serialized :: serializedEach trees

end

mutual

/-- The type as it is written in source. -/
def source : Tree → String
  | mk path args ranks _ =>
    path.textWith (fun _ => ".") ++ angled (sourceEach args) ++ ArrayShape.suffix ⟨ranks⟩

def sourceEach : List Tree → List String
  | [] => []
  | tree :: trees => tree.source :: sourceEach trees

end

end Tree

/-! Paths. -/

lemma Path.toList_textWith (mark : Joint → String) (path : Path) :
    (path.textWith mark).toList =
      path.first.text.toList ++ path.rest.flatMap fun part => (mark part.1).toList ++ part.2.text.toList := by
  unfold Path.textWith
  rw [String.toList_append, String.toList_join, List.flatMap_map]
  simp only [String.toList_append]

lemma Path.mem_stored {path : Path} (h : c ∈ (path.textWith Joint.mark).toList) :
    Text.isBlank c = false ∧ c ∉ ['[', ']', ',', '`'] := by
  have hidentifier : ∀ identifier : Identifier, c ∈ identifier.text.toList →
      Text.isBlank c = false ∧ c ∉ ['[', ']', ',', '`'] := by
    intro identifier hc
    obtain ⟨hblank, hplain⟩ := identifier.plain c hc
    have hamong : ∀ x ∈ ['[', ']', ',', '`'], x ∈ ['[', ']', ',', '+', '.', '`'] := by simp
    exact ⟨hblank, fun hmem => hplain (hamong c hmem)⟩
  have hjoint : ∀ joint : Joint, ∀ x ∈ joint.mark.toList, Text.isBlank x = false ∧ x ∉ ['[', ']', ',', '`'] := by
    intro joint
    cases joint <;> exact List.all_iff_forall_prop.mp (by decide)
  rw [toList_textWith, List.mem_append, List.mem_flatMap] at h
  rcases h with h | ⟨⟨joint, identifier⟩, -, h⟩
  · exact hidentifier path.first h
  rcases List.mem_append.mp h with h | h
  · exact hjoint joint c h
  · exact hidentifier identifier h

/-- A dot in place of every joint. -/
lemma Path.map_stored (path : Path) :
    ((path.textWith Joint.mark).toList.map fun c => if c = '+' then '.' else c) =
      (path.textWith fun _ => ".").toList := by
  have hidentifier : ∀ identifier : Identifier,
      (identifier.text.toList.map fun c => if c = '+' then '.' else c) = identifier.text.toList := by
    intro identifier
    refine (List.map_congr_left fun c hc => if_neg ?_).trans (List.map_id _)
    rintro rfl
    exact (identifier.plain '+' hc).2 (by decide)
  have hjoint : ∀ joint : Joint, (joint.mark.toList.map fun c => if c = '+' then '.' else c) = ".".toList := by
    intro joint
    cases joint <;> decide
  rw [toList_textWith, toList_textWith, List.map_append, hidentifier, List.map_flatMap]
  simp only [List.map_append, hidentifier, hjoint]

lemma trimChars_eq_self {cs : List Char} (h : ∀ c ∈ cs, Text.isBlank c = false) : Text.trimChars cs = cs := by
  have hdrop : ∀ xs : List Char, (∀ c ∈ xs, Text.isBlank c = false) → xs.dropWhile Text.isBlank = xs := by
    intro xs hxs
    cases xs with
    | nil => rfl
    | cons c xs => exact List.dropWhile_cons_of_neg (by simp [hxs c List.mem_cons_self])
  rw [Text.trimChars, hdrop cs h, hdrop _ fun c hc => h c (List.mem_reverse.mp hc), List.reverse_reverse]

lemma isBlank_of_isDigit (h : c.isDigit = true) : Text.isBlank c = false := by
  simp only [Char.isDigit, Bool.and_eq_true, decide_eq_true_eq] at h
  have hlow : 48 ≤ c.toNat := h.1
  have hhigh : c.toNat ≤ 57 := h.2
  have hcodes : ∀ code, code < 58 → 48 ≤ code → Text.blankCodes.contains code = false := by decide
  exact hcodes c.toNat (by omega) hlow

lemma endsName_of_isDigit (h : c.isDigit = true) : endsName c = false := by
  rw [Bool.eq_false_iff]
  intro hends
  simp only [endsName, Bool.or_eq_true, beq_iff_eq] at hends
  rcases hends with (rfl | rfl) | rfl <;> cases h

/-- The characters of a stored name: those of its path and of its mark. -/
lemma mem_markArity {path : Path} (h : c ∈ (markArity (path.textWith Joint.mark) arity).toList) :
    Text.isBlank c = false ∧ endsName c = false := by
  have hpath : c ∈ (path.textWith Joint.mark).toList → Text.isBlank c = false ∧ endsName c = false := by
    intro hc
    obtain ⟨hblank, hplain⟩ := Path.mem_stored hc
    refine ⟨hblank, ?_⟩
    simp only [List.mem_cons, List.not_mem_nil, or_false, not_or] at hplain
    simp [endsName, hplain]
  unfold markArity at h
  split at h
  · exact hpath h
  · rw [String.toList_append, String.toList_append, List.mem_append, List.mem_append] at h
    rcases h with (h | h) | h
    · exact hpath h
    · obtain rfl := List.mem_singleton.mp h
      decide
    · rw [Nat.toString_eq_repr, Nat.toList_repr] at h
      have hdigit := Nat.isDigit_of_mem_toDigits (by omega) (by omega) h
      exact ⟨isBlank_of_isDigit hdigit, endsName_of_isDigit hdigit⟩

lemma plain_markArity (path : Path) (harity : arity < 0x10000000000000000) :
    plain (markArity (path.textWith Joint.mark) arity).toList = (path.textWith fun _ => ".").toList := by
  have htick : '`' ∉ (path.textWith Joint.mark).toList := fun h => (Path.mem_stored h).2 (by decide)
  unfold plain
  rw [trimChars_eq_self fun c hc => (mem_markArity hc).1, String.ofList_toList, splitArity_markArity htick harity]
  exact path.map_stored

/-! Arrays and assemblies. -/

lemma toList_brackets (rank : Nat) :
    (ArrayShape.brackets rank).toList = '[' :: (List.replicate (rank - 1) ',' ++ [']']) := by
  simp [ArrayShape.brackets, Text.repeated]

lemma toList_suffix (ranks : List Nat) :
    (ArrayShape.suffix ⟨ranks⟩).toList = ranks.flatMap fun rank => (ArrayShape.brackets rank).toList := by
  rw [ArrayShape.suffix, String.toList_join, List.flatMap_map]

lemma takeBrackets_step (fuel commas : Nat) (rest : List Char) :
    takeBrackets (fuel + 1) ('[' :: (List.replicate commas ',' ++ ']' :: rest)) =
      ('[' :: (List.replicate commas ',' ++ ']' :: (takeBrackets fuel rest).1), (takeBrackets fuel rest).2) := by
  have htake : (List.replicate commas ',' ++ ']' :: rest).takeWhile (· != ']') = List.replicate commas ',' := by
    rw [List.takeWhile_append_of_pos (by simp [List.mem_replicate]), List.takeWhile_cons_of_neg (by simp), List.append_nil]
  have hdrop : (List.replicate commas ',' ++ ']' :: rest).dropWhile (· != ']') = ']' :: rest := by
    rw [List.dropWhile_append_of_pos (by simp [List.mem_replicate]), List.dropWhile_cons_of_neg (by simp)]
  cases commas with
  | zero => simp_all [takeBrackets]
  | succ commas =>
    rw [List.replicate_succ, List.cons_append] at htake hdrop ⊢
    rw [takeBrackets, if_pos (.inr rfl), htake, hdrop]
    simp

/-- The brackets of arrays are taken as they are written. -/
lemma takeBrackets_suffix (ranks : List Nat) {fuel : Nat} (hfuel : ranks.length ≤ fuel) {rest : List Char}
    (hrest : ∀ c ∈ rest.head?, c ≠ '[') :
    takeBrackets fuel ((ArrayShape.suffix ⟨ranks⟩).toList ++ rest) = ((ArrayShape.suffix ⟨ranks⟩).toList, rest) := by
  rw [toList_suffix]
  induction ranks generalizing fuel with
  | nil =>
    cases rest with
    | nil => cases fuel <;> rfl
    | cons c rest =>
      rw [List.flatMap_nil, List.nil_append]
      unfold takeBrackets
      split
      · simp_all
      · rfl
  | cons rank ranks ih =>
    obtain ⟨fuel, rfl⟩ : ∃ less, fuel = less + 1 := ⟨fuel - 1, by simp at hfuel; omega⟩
    rw [List.flatMap_cons, toList_brackets, List.append_assoc, List.cons_append, List.append_assoc,
      List.singleton_append, takeBrackets_step, ih (Nat.le_of_succ_le_succ hfuel)]
    simp

/-- What closes the brackets around a name that was converted is found behind its assembly. -/
lemma skipClosing_qualification (assembly : Option Assembly) (rest : List Char) :
    skipClosing 0 ((Tree.qualification assembly).toList ++ ']' :: rest) = rest := by
  have hskip : ∀ cs : List Char, (∀ c ∈ cs, c ≠ '[' ∧ c ≠ ']') → skipClosing 0 (cs ++ ']' :: rest) = rest := by
    intro cs hcs
    induction cs with
    | nil => rfl
    | cons c cs ih =>
      obtain ⟨⟨hopen, hclose⟩, hcs⟩ := List.forall_mem_cons.mp hcs
      rw [List.cons_append, skipClosing, if_neg hopen, if_neg hclose, ih hcs]
  refine hskip _ fun c hc => ?_
  cases assembly with
  | none => cases hc
  | some name =>
    change c ∈ (", " ++ name.text).toList at hc
    rw [String.toList_append, List.mem_append] at hc
    rcases hc with hc | hc
    · have hcomma : ∀ x ∈ ", ".toList, x ≠ '[' ∧ x ≠ ']' := List.all_iff_forall_prop.mp (by decide)
      exact hcomma c hc
    · exact name.plain c hc

lemma head_qualification (assembly : Option Assembly) (hrest : ∀ c ∈ rest.head?, c = ']') :
    ∀ c ∈ ((Tree.qualification assembly).toList ++ rest).head?, c = ',' ∨ c = ']' := by
  cases assembly with
  | none => exact fun c hc => .inr (hrest c hc)
  | some name =>
    intro c hc
    change c ∈ ((", " ++ name.text).toList ++ rest).head? at hc
    rw [String.toList_append] at hc
    exact .inl (Option.mem_some.mp hc).symm

/-! Names with arguments. -/

/-- The bracketed arguments of a type, one behind the other. -/
def row (trees : List Tree) : List Char :=
  (Text.joinWith "," ((Tree.serializedEach trees).map fun text => "[" ++ text ++ "]")).toList

lemma row_cons (tree : Tree) (trees : List Tree) :
    row (tree :: trees) = '[' :: (tree.serialized.toList ++ ']' :: (if trees.isEmpty then [] else ',' :: row trees)) := by
  cases trees with
  | nil => simp [row, Tree.serializedEach, Text.joinWith]
  | cons next trees => simp [row, Tree.serializedEach, Text.joinWith]

lemma length_le_row (trees : List Tree) : trees.length ≤ (row trees).length := by
  induction trees with
  | nil => exact Nat.zero_le _
  | cons tree trees ih =>
    rw [row_cons]
    cases trees with
    | nil => simp
    | cons next trees =>
      simp at ih ⊢
      omega

/-- Behind an argument the next one starts, or nothing that opens a bracket. -/
lemma dropIf_row (trees : List Tree) (rest : List Char) :
    dropIf ',' ((if trees.isEmpty then [] else ',' :: row trees) ++ ']' :: rest) = row trees ++ ']' :: rest := by
  cases trees <;> rfl

lemma Tree.toList_serialized (path : Path) (args : List Tree) (ranks : List Nat) (assembly : Option Assembly) :
    (mk path args ranks assembly).serialized.toList =
      (markArity (path.textWith Joint.mark) args.length).toList ++
        ((if args.isEmpty then [] else '[' :: (row args ++ [']'])) ++
          ((ArrayShape.suffix ⟨ranks⟩).toList ++ (qualification assembly).toList)) := by
  cases args <;> simp [serialized, serializedEach, listed, row]

lemma Tree.toList_source (path : Path) (args : List Tree) (ranks : List Nat) (assembly : Option Assembly) :
    (mk path args ranks assembly).source.toList =
      (path.textWith fun _ => ".").toList ++ (angled (sourceEach args)).toList ++ (ArrayShape.suffix ⟨ranks⟩).toList := by
  simp [source]

/-- A name ends where a bracket or a comma stands. -/
lemma span_name {name tail : List Char} (hname : ∀ c ∈ name, endsName c = false)
    (htail : ∀ c ∈ tail.head?, endsName c = true) :
    (name ++ tail).takeWhile (!endsName ·) = name ∧ (name ++ tail).dropWhile (!endsName ·) = tail := by
  have hpos : ∀ c ∈ name, (!endsName c) = true := fun c hc => by rw [hname c hc]; rfl
  rw [List.takeWhile_append_of_pos hpos, List.dropWhile_append_of_pos hpos]
  cases tail with
  | nil => exact ⟨List.append_nil _, rfl⟩
  | cons c tail =>
    simp [htail c rfl]

/-- A name without arguments. -/
lemma convert_of_bare {fuel : Nat} {name tail : List Char} (hname : ∀ c ∈ name, endsName c = false)
    (htail : ∀ c ∈ tail.head?, endsName c = true) (hbare : ∀ cs, tail ≠ '[' :: '[' :: cs) :
    convert (fuel + 1) (name ++ tail) =
      (plain name ++ (takeBrackets tail.length tail).1, (takeBrackets tail.length tail).2) := by
  obtain ⟨htake, hdrop⟩ := span_name hname htail
  rw [convert, htake, hdrop]
  split
  rename_i heq
  split at heq
  · exact absurd rfl (hbare _)
  · cases heq
    rfl

/-- A name with arguments. -/
lemma convert_of_args {fuel : Nat} {name cs : List Char} {args : List String}
    (hname : ∀ c ∈ name, endsName c = false)
    (hargs : convertArgs fuel ('[' :: cs) = (args.map String.toList, ']' :: rest)) :
    convert (fuel + 1) (name ++ '[' :: '[' :: cs) =
      (plain name ++ '<' :: (Text.joinWith ", " args).toList ++ ['>'] ++ (takeBrackets rest.length rest).1,
        (takeBrackets rest.length rest).2) := by
  have hends : ∀ c ∈ ('[' :: '[' :: cs).head?, endsName c = true := by
    rintro c ⟨⟩
    rfl
  obtain ⟨htake, hdrop⟩ := span_name hname hends
  have htexts : (args.map String.toList).map String.ofList = args := by simp
  rw [convert, htake, hdrop]
  simp only [hargs, htexts]
  rfl

/-- Brackets of arrays, and what comes behind, are no arguments. -/
lemma bare_suffix (ranks : List Nat) (hrest : ∀ c ∈ rest.head?, c = ',' ∨ c = ']') :
    (∀ c ∈ ((ArrayShape.suffix ⟨ranks⟩).toList ++ rest).head?, endsName c = true) ∧
      ∀ cs, (ArrayShape.suffix ⟨ranks⟩).toList ++ rest ≠ '[' :: '[' :: cs := by
  rw [toList_suffix]
  cases ranks with
  | nil =>
    refine ⟨fun c hc => ?_, ?_⟩
    · rcases hrest c hc with rfl | rfl <;> rfl
    · rintro cs rfl
      rcases hrest '[' rfl with h | h <;> cases h
  | cons rank ranks =>
    rw [List.flatMap_cons, toList_brackets]
    refine ⟨fun c hc => ?_, fun cs h => ?_⟩
    · cases hc
      rfl
    · -- a comma or the closing bracket follows the opening one
      cases hcommas : rank - 1 with
      | zero => simp [hcommas] at h
      | succ commas => simp [hcommas, List.replicate_succ] at h

lemma length_ranks_le (ranks : List Nat) : ranks.length ≤ (ArrayShape.suffix ⟨ranks⟩).toList.length := by
  rw [toList_suffix]
  induction ranks with
  | nil => exact Nat.le_refl _
  | cons rank ranks ih =>
    rw [List.flatMap_cons, toList_brackets, List.length_append, List.length_cons, List.length_cons]
    omega

lemma takeBrackets_ranks (ranks : List Nat) (hrest : ∀ c ∈ rest.head?, c = ',' ∨ c = ']') :
    takeBrackets ((ArrayShape.suffix ⟨ranks⟩).toList ++ rest).length ((ArrayShape.suffix ⟨ranks⟩).toList ++ rest) =
      ((ArrayShape.suffix ⟨ranks⟩).toList, rest) := by
  refine takeBrackets_suffix ranks ?_ ?_
  · rw [List.length_append]
    exact Nat.le_add_right_of_le (length_ranks_le ranks)
  · intro c hc
    rcases hrest c hc with rfl | rfl <;> decide

lemma endsName_markArity (path : Path) (arity : Nat) :
    ∀ c ∈ (markArity (path.textWith Joint.mark) arity).toList, endsName c = false :=
  fun _ hc => (mem_markArity hc).2

mutual

/-- A serialized name is converted up to its assembly, whatever closes the brackets around it. -/
lemma convert_serialized : ∀ (path : Path) (args : List Tree) (ranks : List Nat) (assembly : Option Assembly)
    (fuel : Nat) (rest : List Char), (Tree.mk path args ranks assembly).serialized.toList.length < fuel →
    (Tree.mk path args ranks assembly).serialized.toList.length < 0x10000000000000000 →
    (∀ c ∈ rest.head?, c = ']') →
    convert fuel ((Tree.mk path args ranks assembly).serialized.toList ++ rest) =
      ((Tree.mk path args ranks assembly).source.toList, (Tree.qualification assembly).toList ++ rest)
  | path, [], ranks, assembly, fuel + 1, rest, _, _, hrest => by
    have hbehind := head_qualification assembly hrest
    obtain ⟨hends, hbare⟩ := bare_suffix ranks hbehind
    have hconvert : convert (fuel + 1) _ = _ := convert_of_bare (endsName_markArity path 0) hends hbare
    rw [takeBrackets_ranks ranks hbehind, plain_markArity path (by decide)] at hconvert
    simpa [Tree.toList_serialized, Tree.toList_source, Tree.angled, Tree.sourceEach] using hconvert
  | path, first :: others, ranks, assembly, fuel + 1, rest, hfuel, hsize, hrest => by
    have hbehind := head_qualification assembly hrest
    have hcount := length_le_row (first :: others)
    rw [Tree.toList_serialized] at hfuel hsize
    simp only [List.isEmpty_cons, Bool.false_eq_true, if_false, List.length_append, List.length_cons] at hfuel hsize
    have hargs := convertArgs_row (first :: others) fuel
      ((ArrayShape.suffix ⟨ranks⟩).toList ++ ((Tree.qualification assembly).toList ++ rest)) (by omega) (by omega)
    rw [row_cons, List.cons_append] at hargs
    have hconvert := convert_of_args (endsName_markArity path (first :: others).length) hargs
    rw [takeBrackets_ranks ranks hbehind,
      plain_markArity path (by simp only [List.length_cons] at hcount ⊢; omega)] at hconvert
    simpa [Tree.toList_serialized, Tree.toList_source, Tree.angled, Tree.sourceEach, row_cons] using hconvert

/-- Each argument is converted, without its assembly. -/
lemma convertArgs_row : ∀ (trees : List Tree) (fuel : Nat) (rest : List Char), (row trees).length ≤ fuel →
    (row trees).length < 0x10000000000000000 →
    convertArgs fuel (row trees ++ ']' :: rest) = ((Tree.sourceEach trees).map String.toList, ']' :: rest)
  | [], fuel, rest, _, _ => by
    cases fuel <;> rfl
  | .mk path args ranks assembly :: trees, 0, rest, hfuel, _ => by
    rw [row_cons] at hfuel
    cases hfuel
  | .mk path args ranks assembly :: trees, fuel + 1, rest, hfuel, hsize => by
    rw [row_cons] at hfuel hsize ⊢
    generalize hbehind : (if trees.isEmpty then [] else ',' :: row trees) = behind at hfuel hsize ⊢
    have hless : (row trees).length ≤ behind.length := by
      rw [← hbehind]
      cases trees <;> simp [row, Tree.serializedEach, Text.joinWith]
    simp only [List.length_append, List.length_cons] at hfuel hsize
    have hfirst := convert_serialized path args ranks assembly fuel (']' :: (behind ++ ']' :: rest))
      (by omega) (by omega) (by rintro c ⟨⟩; rfl)
    have hothers := convertArgs_row trees fuel rest (by omega) (by omega)
    rw [List.cons_append, List.append_assoc, List.cons_append, convertArgs, hfirst]
    simp only [skipClosing_qualification]
    rw [← hbehind, dropIf_row, hothers]
    rfl

end

/-- A serialized name is the type it names, written as in source. The number of arguments is a machine word in the
name, so the name is one that a machine holds. -/
theorem Tree.written_serialized (tree : Tree) (h : tree.serialized.length < 0x10000000000000000) :
    written tree.serialized = tree.source := by
  obtain ⟨path, args, ranks, assembly⟩ := tree
  rw [String.length_toList.symm] at h
  have hconvert := convert_serialized path args ranks assembly _ [] (Nat.lt_succ_self _) h (by rintro c ⟨⟩)
  rw [List.append_nil] at hconvert
  change String.ofList (convert (_ + 1) _).1 = _
  rw [hconvert, String.ofList_toList]

/-- A map of arrays of pairs, nested in a class, with assemblies at two depths. -/
def Tree.nestedMap : Tree :=
  let core : Option Assembly := some { text := "mscorlib, Version=4.0" }
  let number := mk { first := { text := "System" }, rest := [(.member, { text := "Int32" })] } [] [2] none
  let pair := mk { first := { text := "Pair" } } [number] [1, 3] core
  mk { first := { text := "Shop" }, rest := [(.nested, { text := "Map" })] } [pair, number] [1] core

theorem Tree.written_nestedMap :
    nestedMap.serialized = "Shop+Map`2[[Pair`1[[System.Int32[,]]][][,,], mscorlib, Version=4.0]," ++
        "[System.Int32[,]]][], mscorlib, Version=4.0" ∧
      written nestedMap.serialized = "Shop.Map<Pair<System.Int32[,]>[][,,], System.Int32[,]>[]" := by
  refine ⟨by decide +kernel, ?_⟩
  rw [nestedMap.written_serialized (by decide +kernel)]
  decide +kernel

end TypeAtlas.Metadata.TypeName
