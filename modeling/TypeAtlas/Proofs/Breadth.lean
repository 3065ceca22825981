import Mathlib.Logic.Function.Basic
import TypeAtlas.Atlas.Load

/-!
Search in breadth, apart from what is done to the declarations that are met. A queue holds
declarations with their distance, and what was met once is passed over. Main statement: a
search that comes to its end has met exactly the declarations that some way within the budget
leads to, each once.

What stands in the queue is sorted by distance and spans at most two distances, so a
declaration is met at its least distance and the budget never cuts off a shorter way.
-/

namespace TypeAtlas.Search

open Work (isWithin)

variable {next : DeclId → List DeclId} {budget : Option Nat} {root id target : DeclId}
  {visited found : List DeclId} {queue passed rest : List (DeclId × Nat)} {n k : Nat}

/-- A way of `n` steps from `root`. -/
inductive Walk (next : DeclId → List DeclId) (root : DeclId) : Nat → DeclId → Prop
  | start : Walk next root 0 root
  | step {n : Nat} {id target : DeclId} (h : Walk next root n id) (hmem : target ∈ next id) :
      Walk next root (n + 1) target

def Allowed (budget : Option Nat) (n : Nat) : Prop := ∀ limit ∈ budget, n ≤ limit

/-- Some way within the budget leads from `root` to the declaration. -/
def Near (next : DeclId → List DeclId) (budget : Option Nat) (root id : DeclId) : Prop :=
  ∃ n, Allowed budget n ∧ Walk next root n id

lemma Allowed.of_le (h : Allowed budget n) (hle : k ≤ n) : Allowed budget k :=
  fun limit hlimit => Nat.le_trans hle (h limit hlimit)

lemma allowed_none (n : Nat) : Allowed none n := fun _ h => by cases h

lemma allowed_some {limit : Nat} : Allowed (some limit) n ↔ n ≤ limit := by
  constructor
  · intro h
    exact h limit rfl
  · rintro h _ ⟨⟩
    exact h

lemma isWithin_iff : isWithin budget n = true ↔ Allowed budget (n + 1) := by
  cases budget with
  | none => exact iff_of_true rfl (allowed_none (n + 1))
  | some limit =>
    rw [allowed_some, isWithin, decide_eq_true_eq]
    omega

/-- What a declaration puts into the queue once it was met. -/
def onward (next : DeclId → List DeclId) (budget : Option Nat) (visited : List DeclId) (id : DeclId)
    (depth : Nat) : List (DeclId × Nat) :=
  ((if isWithin budget depth then next id else []).filter (!visited.contains ·)).map (·, depth + 1)

lemma mem_onward {entry : DeclId × Nat} : entry ∈ onward next budget visited id k ↔
    entry.2 = k + 1 ∧ Allowed budget (k + 1) ∧ entry.1 ∈ next id ∧ entry.1 ∉ visited := by
  obtain ⟨target, depth⟩ := entry
  simp only [onward, List.mem_map, List.mem_filter, List.contains_eq_mem, Bool.not_eq_true',
    decide_eq_false_iff_not, Prod.mk.injEq]
  constructor
  · rintro ⟨_, ⟨hmem, hnew⟩, rfl, rfl⟩
    split at hmem
    · rename_i hwithin
      exact ⟨rfl, isWithin_iff.mp hwithin, hmem, hnew⟩
    · cases hmem
  · rintro ⟨rfl, hallowed, hmem, hnew⟩
    rw [if_pos (isWithin_iff.mpr hallowed)]
    exact ⟨target, ⟨hmem, hnew⟩, rfl, rfl⟩

/-- A search from what was met and what is queued to all that is met in the end. -/
inductive Run (next : DeclId → List DeclId) (budget : Option Nat) :
    List DeclId → List (DeclId × Nat) → List DeclId → Prop
  | done {visited : List DeclId} {queue : List (DeclId × Nat)}
      (hqueue : ∀ entry ∈ queue, entry.1 ∈ visited) : Run next budget visited queue visited
  | visit {visited found : List DeclId} {passed rest : List (DeclId × Nat)} {id : DeclId} {depth : Nat}
      (hpassed : ∀ entry ∈ passed, entry.1 ∈ visited) (hid : id ∉ visited)
      (h : Run next budget (id :: visited) (rest ++ onward next budget (id :: visited) id depth) found) :
      Run next budget visited (passed ++ (id, depth) :: rest) found

/-- A declaration was met at a distance of at most `n`, or it will be. -/
def Seen (depth : DeclId → Nat) (visited : List DeclId) (queue : List (DeclId × Nat)) (id : DeclId)
    (n : Nat) : Prop :=
  (id ∈ visited ∧ depth id ≤ n) ∨ ∃ entry ∈ queue, entry.1 = id ∧ entry.2 ≤ n

/-- A search under way, where `depth` is the distance at which each declaration was met. -/
structure Frontier (next : DeclId → List DeclId) (budget : Option Nat) (root : DeclId)
    (depth : DeclId → Nat) (visited : List DeclId) (queue : List (DeclId × Nat)) : Prop where
  sorted : queue.Pairwise fun first second => first.2 ≤ second.2
  close : ∀ first ∈ queue, ∀ second ∈ queue, second.2 ≤ first.2 + 1
  behind : ∀ id ∈ visited, ∀ entry ∈ queue, depth id ≤ entry.2
  met : ∀ id ∈ visited, Allowed budget (depth id) ∧ Walk next root (depth id) id
  queued : ∀ entry ∈ queue, Allowed budget entry.2 ∧ Walk next root entry.2 entry.1
  followed : ∀ id ∈ visited, Allowed budget (depth id + 1) → ∀ target ∈ next id,
    Seen depth visited queue target (depth id + 1)
  rooted : Seen depth visited queue root 0

namespace Frontier

variable {depth : DeclId → Nat}

lemma initial (next : DeclId → List DeclId) (budget : Option Nat) (root : DeclId)
    (depth : DeclId → Nat) : Frontier next budget root depth [] [(root, 0)] where
  sorted := by simp
  close := by simp
  behind := by simp
  met := by simp
  queued := by
    intro entry hentry
    obtain rfl := List.mem_singleton.mp hentry
    exact ⟨fun _ _ => Nat.zero_le _, .start⟩
  followed := by simp
  rooted := .inr ⟨(root, 0), List.mem_singleton_self _, rfl, Nat.le_refl 0⟩

/-- What was met before keeps its distance. -/
lemma update_of_mem (hid : id ∉ visited) (htarget : target ∈ visited) :
    Function.update depth id k target = depth target := by
  apply Function.update_of_ne
  rintro rfl
  exact hid htarget

section

variable (h : Frontier next budget root depth visited (passed ++ (id, k) :: rest))

include h

/-- What was met or queued still is when the next declaration is met. An entry that is passed
over was met at no greater distance. -/
lemma seen (hpassed : ∀ entry ∈ passed, entry.1 ∈ visited) (hid : id ∉ visited)
    (hseen : Seen depth visited (passed ++ (id, k) :: rest) target n) (more : List (DeclId × Nat)) :
    Seen (Function.update depth id k) (id :: visited) (rest ++ more) target n := by
  rcases hseen with ⟨hmem, hle⟩ | ⟨entry, hentry, rfl, hle⟩
  · refine .inl ⟨List.mem_cons_of_mem id hmem, ?_⟩
    rwa [update_of_mem hid hmem]
  · have hbehind := fun hmem => h.behind entry.1 hmem entry hentry
    rcases List.mem_append.mp hentry with hold | hentry
    · have hmem := hpassed entry hold
      refine .inl ⟨List.mem_cons_of_mem id hmem, ?_⟩
      rw [update_of_mem hid hmem]
      exact Nat.le_trans (hbehind hmem) hle
    · rcases List.mem_cons.mp hentry with rfl | hrest
      · refine .inl ⟨List.mem_cons_self, ?_⟩
        rwa [Function.update_self]
      · exact .inr ⟨entry, List.mem_append_left more hrest, rfl, hle⟩

/-- What is queued behind a declaration has its distance or the next one. -/
lemma span
    {entry : DeclId × Nat} (hentry : entry ∈ rest ++ onward next budget (id :: visited) id k) :
    k ≤ entry.2 ∧ entry.2 ≤ k + 1 := by
  rcases List.mem_append.mp hentry with hrest | hnew
  · have hsorted := List.pairwise_cons.mp (List.pairwise_append.mp h.sorted).2.1
    have hclose := h.close (id, k) (by simp) entry (by simp [hrest])
    exact ⟨hsorted.1 entry hrest, hclose⟩
  · have heq := (mem_onward.mp hnew).1
    omega

lemma sorted_visit :
    (rest ++ onward next budget (id :: visited) id k).Pairwise fun first second =>
      first.2 ≤ second.2 := by
  have hsorted := List.pairwise_cons.mp (List.pairwise_append.mp h.sorted).2.1
  apply List.pairwise_append.mpr
  refine ⟨hsorted.2, ?_, ?_⟩
  · exact List.pairwise_map.mpr (List.pairwise_of_forall fun _ _ => Nat.le_refl _)
  · intro first hfirst second hsecond
    have hspan := h.span (List.mem_append_left _ hfirst)
    have heq := (mem_onward.mp hsecond).1
    omega

lemma depth_le
    (hid : id ∉ visited) (htarget : target ∈ id :: visited) : Function.update depth id k target ≤ k := by
  rcases List.mem_cons.mp htarget with rfl | hmem
  · simp
  · rw [update_of_mem hid hmem]
    exact h.behind target hmem (id, k) (by simp)

/-- What a declaration leads to was met before it or is queued now. -/
lemma seen_next
    (hid : id ∉ visited) (hallowed : Allowed budget (k + 1)) (htarget : target ∈ next id) :
    Seen (Function.update depth id k) (id :: visited) (rest ++ onward next budget (id :: visited) id k)
      target (k + 1) := by
  by_cases hmem : target ∈ id :: visited
  · exact .inl ⟨hmem, Nat.le_succ_of_le (h.depth_le hid hmem)⟩
  · have hentry : (target, k + 1) ∈ onward next budget (id :: visited) id k :=
      mem_onward.mpr ⟨rfl, hallowed, htarget, hmem⟩
    exact .inr ⟨(target, k + 1), List.mem_append_right rest hentry, rfl, Nat.le_refl _⟩

/-- Meeting the next declaration keeps the search in order. -/
lemma visit (hpassed : ∀ entry ∈ passed, entry.1 ∈ visited) (hid : id ∉ visited) :
    Frontier next budget root (Function.update depth id k) (id :: visited)
      (rest ++ onward next budget (id :: visited) id k) where
  sorted := h.sorted_visit
  close := by
    intro first hfirst second hsecond
    have hspan := h.span hfirst
    have hspan' := h.span hsecond
    omega
  behind := by
    intro other hother entry hentry
    exact Nat.le_trans (h.depth_le hid hother) (h.span hentry).1
  met := by
    intro other hother
    rcases List.mem_cons.mp hother with rfl | hmem
    · rw [Function.update_self]
      exact h.queued (other, k) (by simp)
    · rw [update_of_mem hid hmem]
      exact h.met other hmem
  queued := by
    intro entry hentry
    rcases List.mem_append.mp hentry with hrest | hnew
    · exact h.queued entry (by simp [hrest])
    · obtain ⟨heq, hallowed, hmem, -⟩ := mem_onward.mp hnew
      rw [heq]
      exact ⟨hallowed, .step (h.queued (id, k) (by simp)).2 hmem⟩
  followed := by
    intro other hother hallowed target htarget
    rcases List.mem_cons.mp hother with rfl | hmem
    · rw [Function.update_self] at hallowed ⊢
      exact h.seen_next hid hallowed htarget
    · rw [update_of_mem hid hmem] at hallowed ⊢
      exact h.seen hpassed hid (h.followed other hmem hallowed target htarget) _
  rooted := h.seen hpassed hid h.rooted _

end

/-- Where nothing new is queued, all that a way within the budget leads to was met. -/
lemma mem_of_walk (h : Frontier next budget root depth visited queue)
    (hqueue : ∀ entry ∈ queue, entry.1 ∈ visited) (hwalk : Walk next root n target)
    (hallowed : Allowed budget n) : target ∈ visited ∧ depth target ≤ n := by
  have hmet : ∀ {id n}, Seen depth visited queue id n → id ∈ visited ∧ depth id ≤ n := by
    rintro id n (hseen | ⟨entry, hentry, rfl, hle⟩)
    · exact hseen
    · have hmem := hqueue entry hentry
      exact ⟨hmem, Nat.le_trans (h.behind entry.1 hmem entry hentry) hle⟩
  induction hwalk with
  | start => exact hmet h.rooted
  | step hwalk hmem ih =>
    obtain ⟨hid, hle⟩ := ih (hallowed.of_le (Nat.le_succ _))
    have hstep : Allowed budget (depth _ + 1) := hallowed.of_le (Nat.succ_le_succ hle)
    obtain ⟨htarget, hle'⟩ := hmet (h.followed _ hid hstep _ hmem)
    exact ⟨htarget, Nat.le_trans hle' (Nat.succ_le_succ hle)⟩

end Frontier

lemma Run.subset (h : Run next budget visited queue found) : visited ⊆ found := by
  induction h with
  | done => exact List.Subset.refl _
  | visit _ _ _ ih => exact fun _ hmem => ih (List.mem_cons_of_mem _ hmem)

/-- A search meets each declaration that is near once, and no other. -/
lemma Run.meets {depth : DeclId → Nat} (h : Run next budget visited queue found)
    (hfrontier : Frontier next budget root depth visited queue) (hnodup : visited.Nodup) :
    found.Nodup ∧ ∀ id, id ∈ found ↔ Near next budget root id := by
  induction h generalizing depth with
  | done hqueue =>
    refine ⟨hnodup, fun id => ⟨fun hid => ?_, ?_⟩⟩
    · exact ⟨depth id, hfrontier.met id hid⟩
    · rintro ⟨n, hallowed, hwalk⟩
      exact (hfrontier.mem_of_walk hqueue hwalk hallowed).1
  | visit hpassed hid h ih => exact ih (hfrontier.visit hpassed hid) (List.nodup_cons.mpr ⟨hid, hnodup⟩)

end TypeAtlas.Search
