import TypeAtlas.Proofs.Registration

/-!
Publication of a shape part by part. A load changes the shape of its declaration again and again
while it finds out more, and nested loads run in between. But the declaration counts as loaded all
the time, and no work looks at the shape of such a declaration (`Overlooks`). So a load goes as if
the shape were found out as a whole first, and where it fails it leaves some part of the shape in its
declaration and in nothing else (`publishShape_fills`).
-/

namespace TypeAtlas

variable {id other : DeclId} {s : Shape}

namespace Graph

variable {g : Graph} {f h : Declaration → Declaration}

lemma isLoaded_iff : g.isLoaded id = true ↔ ∃ d, g.get? id = some d ∧ d.loaded = true := by
  unfold isLoaded
  cases g.get? id <;> simp

lemma isLoaded_of_get? {d : Declaration} (h : g.get? id = some d) : g.isLoaded id = d.loaded := by
  simp [isLoaded, h]

lemma lt_size_of_isLoaded (h : g.isLoaded id = true) : id < g.size := by
  obtain ⟨d, hd, -⟩ := isLoaded_iff.mp h
  exact lt_size_of_get? hd

lemma ext_modify {g' : Graph} (h : ∀ other, (g.modify id f).get? other = g'.get? other)
    (hrest : { g' with declarations := g.declarations } = g) : g.modify id f = g' := by
  have hsame : (g.modify id f).declarations = g'.declarations := Array.ext_getElem? h
  rw [← hrest, modify]
  rw [← hrest] at hsame
  simp only [modify] at hsame
  simp only [hsame]

lemma modify_modify (g : Graph) (id : DeclId) (f h : Declaration → Declaration) :
    (g.modify id f).modify id h = g.modify id fun d => h (f d) := by
  refine ext_modify (fun other => ?_) rfl
  simp only [get?_modify]
  split
  · rw [Option.map_map]
    rfl
  · rfl

lemma modify_comm (g : Graph) (hne : id ≠ other) (f h : Declaration → Declaration) :
    (g.modify id f).modify other h = (g.modify other h).modify id f := by
  refine ext_modify (fun target => ?_) rfl
  simp only [get?_modify]
  by_cases hid : id = target
  · subst hid
    simp [hne.symm]
  · simp [hid]

lemma modify_self {d : Declaration} (hd : g.get? id = some d) (hf : f d = d) : g.modify id f = g := by
  refine ext_modify (fun other => ?_) rfl
  rw [get?_modify]
  split
  · rename_i hid
    subst hid
    rw [hd, Option.map_some, hf]
  · rfl

/-- Registering does not look at what is changed in a declaration. -/
lemma add_modify (hid : id < g.size) (f : Declaration → Declaration) (d : Declaration) :
    (g.modify id f).add d = ((g.add d).1, (g.add d).2.modify id f) := by
  have hkey : (g.modify id f).findQualified d.key = g.findQualified d.key := rfl
  unfold add
  rw [hkey]
  cases g.findQualified d.key with
  | some taken => rfl
  | none =>
    have hpush : (g.declarations.modify id f).push d = (g.declarations.push d).modify id f := by
      have hne : id ≠ g.declarations.size := Nat.ne_of_lt hid
      apply Array.ext_getElem?
      intro other
      simp only [Array.getElem?_push, Array.getElem?_modify, Array.size_modify]
      by_cases hother : other = g.declarations.size
      · subst hother
        simp [hne]
      · simp [hother]
    simp only [size_modify]
    simp only [modify, hpush]

/-- References are recorded of one declaration, whatever is changed in another. -/
lemma recordReferences_modify (g : Graph) (hne : id ≠ other) (f : Declaration → Declaration) :
    (g.modify id f).recordReferences other = (g.recordReferences other).modify id f := by
  unfold recordReferences
  rw [get?_modify_of_ne g f hne]
  cases g.get? other <;> rfl

/-- Nothing is left to load under a number. -/
def Settles (g : Graph) (id : DeclId) : Prop := ∀ d, g.get? id = some d → d.loaded = true

end Graph

namespace Atlas

/-- Mark a declaration as loaded or not. -/
def flag (a : Atlas) (id : DeclId) (loaded : Bool) : Atlas :=
  { a with graph := a.graph.modify id ({ · with loaded := loaded }) }

/-- Give a declaration another shape. -/
def reshape (a : Atlas) (id : DeclId) (shape : Shape) : Atlas :=
  { a with graph := a.graph.modify id ({ · with shape := shape }) }

/-- Take the mark away and clear the shape. -/
def rollBack (a : Atlas) (id : DeclId) : Atlas :=
  { a with graph := a.graph.modify id ({ · with loaded := false, shape := {} }) }

/-- Give a declaration its shape and record what it refers to. -/
def publish (a : Atlas) (id : DeclId) (shape : Shape) : Atlas :=
  { a with graph := (a.graph.modify id ({ · with shape := shape })).recordReferences id }

variable {a : Atlas}

lemma get?_flag (a : Atlas) (id other : DeclId) (loaded : Bool) :
    (a.flag id loaded).graph.get? other =
      if id = other then (a.graph.get? other).map ({ · with loaded := loaded })
      else a.graph.get? other :=
  Graph.get?_modify a.graph id other _

lemma get?_rollBack (a : Atlas) (id other : DeclId) :
    (a.rollBack id).graph.get? other =
      if id = other then (a.graph.get? other).map ({ · with loaded := false, shape := {} })
      else a.graph.get? other :=
  Graph.get?_modify a.graph id other _

lemma get?_publish (a : Atlas) (id other : DeclId) (shape : Shape) :
    (a.publish id shape).graph.get? other =
      if id = other then (a.graph.get? other).map ({ · with shape := shape })
      else a.graph.get? other :=
  (Graph.get?_recordReferences _ id other).trans (Graph.get?_modify a.graph id other _)

lemma isLoaded_flag {d : Declaration} (hd : a.graph.get? id = some d) :
    (a.flag id true).graph.isLoaded id = true := by
  rw [Graph.isLoaded_iff, get?_flag, if_pos rfl, hd]
  exact ⟨_, rfl, rfl⟩

lemma isLoaded_publish (h : a.graph.isLoaded other = true) (id : DeclId) (shape : Shape) :
    (a.publish id shape).graph.isLoaded other = true := by
  obtain ⟨d, hd, hloaded⟩ := Graph.isLoaded_iff.mp h
  rw [Graph.isLoaded_iff, get?_publish, hd]
  split
  · exact ⟨_, rfl, hloaded⟩
  · exact ⟨d, rfl, hloaded⟩

/-- What does not depend on shapes is the same for every declaration. -/
lemma map_get?_reshape {α : Type} {f : Declaration → α} (hf : ∀ d, f { d with shape := s } = f d) (a : Atlas)
    (id other : DeclId) : ((a.reshape id s).graph.get? other).map f = (a.graph.get? other).map f := by
  rw [reshape, Graph.get?_modify]
  split
  · rw [Option.map_map]
    exact congrArg (Option.map · (a.graph.get? other)) (funext hf)
  · rfl

lemma reshape_self {d : Declaration} (hd : a.graph.get? id = some d) (hs : d.shape = s) : a.reshape id s = a := by
  have hself : { d with shape := s } = d := by rw [← hs]
  rw [reshape, Graph.modify_self hd hself]

/-- A shape makes no difference to what is rolled back. -/
lemma rollBack_reshape (a : Atlas) (id : DeclId) (s : Shape) : (a.reshape id s).rollBack id = a.rollBack id := by
  simp only [rollBack, reshape, Graph.modify_modify]

/-- A mark that is taken away again leaves no trace of a declaration that was empty. -/
lemma rollBack_flag {b : Atlas} {d : Declaration} (hd : b.graph.get? id = some d) (hunloaded : d.loaded = false)
    (hempty : d.shape = {}) : (b.flag id true).rollBack id = b := by
  have hself : { d with loaded := false, shape := {} } = d := by rw [← hunloaded, ← hempty]
  simp only [rollBack, flag, Graph.modify_modify]
  rw [Graph.modify_self hd hself]

end Atlas

namespace Shape

/-- What a load makes of the shape it begins with and the one it finds out. -/
def onto (kind : Kind) (start shape : Shape) : Shape where
  generics := if kind = .enumType then start.generics ++ shape.generics else shape.generics
  bases := start.bases ++ shape.bases
  members := start.members ++ shape.members
  attributes := shape.attributes

@[simp] lemma onto_empty (kind : Kind) (shape : Shape) : onto kind {} shape = shape := by
  simp [onto]

lemma foldl_addBase (uses : List Use) (s : Shape) :
    uses.foldl addBase s = { s with bases := s.bases ++ uses } := by
  induction uses generalizing s with
  | nil => simp
  | cons use uses ih => simp [ih, addBase]

lemma foldl_addMember (members : List Member) (s : Shape) :
    members.foldl addMember s = { s with members := s.members ++ members } := by
  induction members generalizing s with
  | nil => simp
  | cons member members ih => simp [ih, addMember]

/-- Add a member, if there is one. -/
def addMember? (s : Shape) (member : Option Member) : Shape := (member.map s.addMember).getD s

lemma foldl_addMember? (members : List (Option Member)) (s : Shape) :
    members.foldl addMember? s = { s with members := s.members ++ members.filterMap fun member => member } := by
  induction members generalizing s with
  | nil => simp
  | cons member members ih => cases member <;> simp [ih, addMember?, addMember]

end Shape

namespace Work

variable {α β : Type} {w : Work α} {found : Use → Work Unit}

/-- Two runs, in the second of which a declaration that counts as loaded has another shape. -/
def Regime.overlooking (id : DeclId) (s : Shape) : Regime where
  inStep a a' := a.graph.isLoaded id = true ∧ a' = a.reshape id s
  known _ _ := True

/-- Work that does not look at the shape of a declaration that counts as loaded, and leaves it
loaded. -/
def Overlooks (id : DeclId) (s : Shape) (w : Work α) : Prop :=
  ∀ a, a.graph.isLoaded id = true → (w.exec a).2.graph.isLoaded id = true ∧
    w.exec (a.reshape id s) = ((w.exec a).1, (w.exec a).2.reshape id s)

lemma Overlooks.tracks {before : Atlas → Prop} {after : α → Atlas → Prop} (h : Overlooks id s w)
    (hafter : ∀ x b, after x b) : TracksTo (Regime.overlooking id s) before after w w := by
  rintro a _ ⟨hloaded, rfl⟩ -
  obtain ⟨hstill, hrun⟩ := h a hloaded
  refine ⟨(w.exec a).2, _, ⟨hstill, rfl⟩, fun _ _ => trivial, ?_⟩
  rw [hrun]
  cases hw : w.exec a with
  | mk r b =>
    cases r with
    | ok x => exact .inl ⟨x, rfl, rfl, hafter x b⟩
    | error fault => exact .inr ⟨fault, rfl, rfl, trivial⟩

lemma Tracks.overlooks {uses : α → List Use} (h : Tracks (Regime.overlooking id s) [] uses w w) :
    Overlooks id s w := by
  intro a hloaded
  obtain ⟨b, _, ⟨hb, rfl⟩, -, ⟨x, hw, hw', -⟩ | ⟨fault, hw, hw', -⟩⟩ :=
    h a _ ⟨hloaded, rfl⟩ fun _ _ => trivial
  · rw [hw, hw']
    exact ⟨hb, rfl⟩
  · rw [hw, hw']
    exact ⟨hb, rfl⟩

lemma define_overlooks (library : Library) (row : Nat) : Overlooks id s (define library row) := by
  intro a hloaded
  have hid := Graph.lt_size_of_isLoaded hloaded
  have hfind (key : Key) : (a.reshape id s).graph.findQualified key = a.graph.findQualified key := rfl
  have hkept (d : Declaration) : (a.graph.add d).2.isLoaded id = true := by
    rw [Graph.isLoaded, Graph.get?_add d hid]
    exact hloaded
  rw [exec_define, exec_define]
  simp only [hfind]
  cases library.markedKey row with
  | error cause => exact ⟨hloaded, rfl⟩
  | ok key =>
    dsimp only
    cases a.graph.findQualified key with
    | some taken => exact ⟨hloaded, rfl⟩
    | none =>
      cases Declaration.ofDefinition none library row with
      | error cause => exact ⟨hloaded, rfl⟩
      | ok d =>
        refine ⟨hkept d, ?_⟩
        simp only [Atlas.reshape, Graph.add_modify hid]

lemma overlooking_steady : (Regime.overlooking id s).Steady fun _ => True where
  lookup := by
    rintro a _ ⟨-, rfl⟩ fullName arity location
    have hmap (g : Graph) (other : DeclId) : g.hasArity arity other = ((g.get? other).map (·.arity == arity)).getD false := by
      unfold Graph.hasArity
      cases g.get? other <;> rfl
    have harity : (a.reshape id s).graph.hasArity arity = a.graph.hasArity arity := by
      funext other
      rw [hmap, hmap, Atlas.map_get?_reshape fun _ => rfl]
    unfold Graph.lookup
    rw [harity]
    rfl
  nameOf := by
    rintro a _ ⟨-, rfl⟩
    funext other
    unfold Graph.nameOf
    rw [Atlas.map_get?_reshape fun _ => rfl]
  libraries := by
    rintro a _ ⟨-, rfl⟩
    rfl
  skips := by
    rintro a _ ⟨-, rfl⟩
    rfl
  toInherits := .of_known fun _ _ => trivial
  heldLookup := fun _ _ _ _ _ _ => trivial
  present := fun _ _ _ => trivial
  define := fun library row _ => (define_overlooks library row).tracks fun _ _ => trivial
  held := fun _ _ _ _ _ => trivial

/-- Following a use overlooks what loading overlooks. -/
lemma followWith_overlooks {load : DeclId → Work Unit} (h : ∀ target, Overlooks id s (load target)) (use : Use) :
    Overlooks id s (followWith load use) := by
  intro a hloaded
  have hpolicy : (a.reshape id s).settings.loadPolicy = a.settings.loadPolicy := rfl
  rw [followWith, exec_bind, exec_bind, exec_get, exec_get]
  dsimp only
  rw [hpolicy]
  split
  · exact h _ a hloaded
  · exact ⟨hloaded, rfl⟩

/-- From a shape `s` of a declaration that counts as loaded, publishing ends with the shape that `put`
makes of what is found out as a whole, or fails like that with some shape. -/
def Fills (id : DeclId) (s : Shape) (put : α → Shape) (w : Work Unit) (whole : Work α) : Prop :=
  ∀ a, a.graph.isLoaded id = true → ∃ b, b.graph.isLoaded id = true ∧
    ((∃ x, whole.exec a = (.ok x, b) ∧ w.exec (a.reshape id s) = (.ok (), b.reshape id (put x))) ∨
      ∃ fault part, whole.exec a = (.error fault, b) ∧
        w.exec (a.reshape id s) = (.error fault, b.reshape id part))

namespace Fills

variable {put : α → Shape} {x : α} {f : Shape → Shape} {whole : Work α} {w : Work Unit}

lemma exec_amend_reshape (a : Atlas) (id : DeclId) (s : Shape) (f : Shape → Shape) :
    (amend id f).exec (a.reshape id s) = (.ok (), a.reshape id (f s)) := by
  simp only [amend, exec_change, Atlas.reshape, Graph.modify_modify]

/-- The last part. -/
lemma last (h : f s = put x) : Fills id s put (amend id f) (pure x) := by
  intro a hloaded
  refine ⟨a, hloaded, .inl ⟨x, rfl, ?_⟩⟩
  rw [exec_amend_reshape, h]

/-- A step that only publishes. -/
lemma step {w' : Work Unit} {t : Shape} (hstep : ∀ a : Atlas, w'.exec (a.reshape id s) = (.ok (), a.reshape id t))
    (h : Fills id t put w whole) : Fills id s put (do w'; w) whole := by
  intro a hloaded
  rw [exec_bind, hstep]
  exact h a hloaded

lemma amend (h : Fills id (f s) put w whole) : Fills id s put (do amend id f; w) whole :=
  step (fun a => exec_amend_reshape a id s f) h

/-- Work that finds out something of the shape. -/
lemma part {v : Work β} {k : β → Work Unit} {k' : β → Work α} (hv : Overlooks id s v)
    (h : ∀ y, Fills id s put (k y) (k' y)) : Fills id s put (v >>= k) (v >>= k') := by
  intro a hloaded
  obtain ⟨hb, hrun⟩ := hv a hloaded
  rw [exec_bind, exec_bind, hrun]
  cases hv' : v.exec a with
  | mk r b =>
    rw [hv'] at hb
    cases r with
    | ok y => exact h y b hb
    | error fault => exact ⟨b, hb, .inr ⟨fault, s, rfl, rfl⟩⟩

/-- Parts that are published one by one. -/
lemma each {γ : Type} {xs : List γ} {v : γ → Work β} {publish : β → Work Unit} {f : Shape → β → Shape}
    {k : Work Unit} {k' : List β → Work α} (hv : ∀ x s, Overlooks id s (v x))
    (hpublish : ∀ y s (a : Atlas), (publish y).exec (a.reshape id s) = (.ok (), a.reshape id (f s y)))
    (h : ∀ ys, Fills id (ys.foldl f s) put k (k' ys)) :
    Fills id s put (do xs.forM (fun x => do publish (← v x)); k) (xs.mapM v >>= k') := by
  induction xs generalizing s k' with
  | nil => exact h []
  | cons x xs ih =>
    simp only [List.forM, List.mapM_cons, bind_assoc, pure_bind]
    refine part (hv x s) fun y => step (hpublish y s) ?_
    exact ih fun ys => h (y :: ys)

end Fills

section Fills

variable {put : Shape → Shape} {start : Shape}
  (hfound : ∀ s, Followed (Regime.overlooking id s) found found)

include hfound

lemma publishWritten_fills (document : Source.Document) (scope : Scope) (kind : Kind) (tree : Source.DeclTree) :
    Fills id start (Shape.onto kind start) (publishWritten found document id scope kind tree)
      (writtenShape found document scope kind tree) := by
  unfold publishWritten writtenShape
  split
  · rename_i henum
    refine .part (writtenAttributes_tracks overlooking_steady (hfound _) document scope _).overlooks fun attributes => ?_
    refine .last ?_
    simp [Shape.onto, henum]
  · rename_i hplain
    refine .amend (.part (writtenConstraints_tracks overlooking_steady (hfound _) document _ _).overlooks
      fun constraints => .amend ?_)
    refine .each (fun base s => (writtenType_tracks overlooking_steady (hfound s) document _ base).overlooks)
      (fun use s a => Fills.exec_amend_reshape a id s (·.addBase use)) fun bases => ?_
    refine .each (fun member s => (writtenMember_tracks overlooking_steady (hfound s) document _ member).overlooks)
      (fun member s a => Fills.exec_amend_reshape a id s (·.addMember member)) fun members => ?_
    refine .part (writtenAttributes_tracks overlooking_steady (hfound _) document _ _).overlooks fun attributes => ?_
    refine .last ?_
    rw [Shape.foldl_addMember, Shape.foldl_addBase]
    simp [Shape.onto, hplain, Shape.constrain, Shape.withParams, constrained]

lemma publishStored_fills (library : Library) (scope : Scope) (kind : Kind) (row : Nat) :
    Fills id start (Shape.onto kind start) (publishStored found library id scope kind row)
      (storedShape found library scope kind row) := by
  unfold publishStored storedShape
  have hcheck {γ : Type} (r : Except Malformed γ) (s : Shape) : Overlooks id s (check r) :=
    Tracks.overlooks (overlooking_steady.check r)
  split
  · rename_i henum
    refine .part (storedAttributes_tracks overlooking_steady (hfound _) trivial scope _).overlooks fun attributes => ?_
    refine .last ?_
    simp [Shape.onto, henum]
  · rename_i hplain
    refine .part (hcheck _ _) fun names => .amend ?_
    refine .part (storedGenerics_tracks overlooking_steady (hfound _) trivial _ _ _).overlooks
      fun generics => .amend ?_
    refine .part (hcheck _ _) fun tokens => ?_
    refine .each (fun base s => (tokenFinding_tracks overlooking_steady (hfound s) trivial _ base).overlooks)
      (fun use s a => Fills.exec_amend_reshape a id s (·.addBase use)) fun bases => ?_
    refine .part (hcheck _ _) fun methods => ?_
    refine .each (f := Shape.addMember?)
      (fun method s => (storedMember_tracks overlooking_steady (hfound s) trivial _ _ method).overlooks)
      (fun member s a => ?_) fun members => ?_
    · cases member with
      | none => rfl
      | some member => exact Fills.exec_amend_reshape a id s (·.addMember member)
    refine .part (storedAttributes_tracks overlooking_steady (hfound _) trivial _ _).overlooks fun attributes => ?_
    refine .last ?_
    rw [Shape.foldl_addMember?, Shape.foldl_addBase]
    simp [Shape.onto, hplain, Shape.withParams]

/-- Publishing the shape of a declaration goes like finding it out as a whole. -/
lemma publishShape_fills (d : Declaration) :
    Fills id start (Shape.onto d.kind start) (publishShape found id d) (shapeOf found d) := by
  unfold publishShape shapeOf
  cases d.provenance with
  | source =>
    have hlost {fault : Fault} : Fills id start (Shape.onto d.kind start) (throw fault) (throw fault) :=
      fun a hloaded => ⟨a, hloaded, .inr ⟨fault, start, rfl, rfl⟩⟩
    unfold publishSource sourceShape
    cases d.handle.node? with
    | none => exact hlost
    | some node =>
      cases node with
      | ofType tree => exact publishWritten_fills hfound _ _ _ tree
      | _ => exact hlost
  | module m row => exact publishStored_fills hfound _ _ _ row

end Fills

lemma exec_loadWith_succ (fuel : Nat) (id : DeclId) (a : Atlas) :
    (loadWith (fuel + 1) id).exec a =
      match a.graph.get? id with
      | none => (.ok (), a)
      | some d =>
        if d.loaded then (.ok (), a)
        else match (publishShape (followWith (loadWith fuel)) id d).exec (a.flag id true) with
          | (.ok _, b) => (.ok (), { b with graph := b.graph.recordReferences id })
          | (.error fault, b) => (.error fault, b.rollBack id) := by
  rw [loadWith, exec_bind]
  simp only [exec_graph]
  cases a.graph.get? id with
  | none => rfl
  | some d =>
    dsimp only
    split
    · rfl
    · simp only [exec_bind, exec_change, exec_tryCatch, Atlas.flag]
      cases exec (publishShape (followWith (loadWith fuel)) id d)
        { a with graph := a.graph.modify id ({ · with loaded := true }) } with
      | mk r b => cases r <;> rfl

lemma exec_loadWith_of_settles {a : Atlas} (h : a.graph.Settles id) (fuel : Nat) :
    (loadWith (fuel + 1) id).exec a = (.ok (), a) := by
  rw [exec_loadWith_succ]
  cases hd : a.graph.get? id with
  | none => rfl
  | some d => exact if_pos (h d hd)

/-- What a load of a declaration that is not loaded comes to, if what is nested in it overlooks the
declaration: it publishes the shape it finds out, or it fails and is rolled back. -/
lemma exec_loadWith_of_overlooks {fuel : Nat}
    (h : ∀ s target, Overlooks id s (loadWith fuel target)) {a : Atlas} {d : Declaration}
    (hd : a.graph.get? id = some d) (hunloaded : d.loaded = false) :
    ∃ b, b.graph.isLoaded id = true ∧
      ((∃ shape, (shapeOf (followWith (loadWith fuel)) d).exec (a.flag id true) = (.ok shape, b) ∧
          (loadWith (fuel + 1) id).exec a = (.ok (), b.publish id (.onto d.kind d.shape shape))) ∨
        ∃ fault, (shapeOf (followWith (loadWith fuel)) d).exec (a.flag id true) = (.error fault, b) ∧
          (loadWith (fuel + 1) id).exec a = (.error fault, b.rollBack id)) := by
  have hfills : Fills id d.shape _ _ _ := publishShape_fills
    (fun s use => (followWith_overlooks (h s) use).tracks fun _ _ => trivial) d
  obtain ⟨b, hb, hruns⟩ := hfills _ (Atlas.isLoaded_flag hd)
  have hstart : (a.flag id true).reshape id d.shape = a.flag id true := by
    have hmarked : (a.flag id true).graph.get? id = some { d with loaded := true } := by
      rw [Atlas.get?_flag, if_pos rfl, hd]
      rfl
    exact Atlas.reshape_self hmarked rfl
  rw [hstart] at hruns
  refine ⟨b, hb, ?_⟩
  rw [exec_loadWith_succ, hd]
  simp only [hunloaded, Bool.false_eq_true, if_false]
  rcases hruns with ⟨shape, hwhole, hrun⟩ | ⟨fault, part, hwhole, hrun⟩ <;> rw [hrun]
  · exact .inl ⟨shape, hwhole, rfl⟩
  · exact .inr ⟨fault, hwhole, congrArg (Prod.mk _) (b.rollBack_reshape id part)⟩

/-- A load overlooks the shape of every declaration that counts as loaded. -/
lemma loadWith_overlooks (fuel : Nat) (id : DeclId) (s : Shape) (target : DeclId) :
    Overlooks id s (loadWith fuel target) := by
  induction fuel generalizing id s target with
  | zero => exact fun a hloaded => ⟨hloaded, rfl⟩
  | succ fuel ih =>
    intro a hloaded
    by_cases hsettles : a.graph.Settles target
    · have hsettles' : (a.reshape id s).graph.Settles target := by
        intro d hd
        have hmap := Atlas.map_get?_reshape (s := s) (f := (·.loaded)) (fun _ => rfl) a id target
        rw [hd] at hmap
        obtain ⟨e, he, hsame⟩ := Option.map_eq_some_iff.mp hmap.symm
        exact hsame.symm.trans (hsettles e he)
      rw [exec_loadWith_of_settles hsettles, exec_loadWith_of_settles hsettles']
      exact ⟨hloaded, rfl⟩
    obtain ⟨d, hd, hunloaded⟩ : ∃ d, a.graph.get? target = some d ∧ d.loaded = false := by
      simpa [Graph.Settles] using hsettles
    have hne : id ≠ target := by
      rintro rfl
      rw [Graph.isLoaded_of_get? hd, hunloaded] at hloaded
      cases hloaded
    have hd' : (a.reshape id s).graph.get? target = some d := (Graph.get?_modify_of_ne a.graph _ hne).trans hd
    have hflag : (a.reshape id s).flag target true = (a.flag target true).reshape id s := by
      simp only [Atlas.flag, Atlas.reshape, Graph.modify_comm a.graph hne]
    have hmarked : (a.flag target true).graph.isLoaded id = true := by
      rw [Graph.isLoaded, Atlas.get?_flag, if_neg hne.symm]
      exact hloaded
    -- The shape of `target` is found out alike in both runs, and its changes leave `id` alone.
    have hfollowed : Followed (Regime.overlooking id s) (followWith (loadWith fuel)) (followWith (loadWith fuel)) :=
      fun use => (followWith_overlooks (ih id s) use).tracks fun _ _ => trivial
    obtain ⟨hstill, hwhole⟩ := (shapeOf_tracks overlooking_steady hfollowed d fun _ _ _ => trivial).overlooks _ hmarked
    obtain ⟨b, -, hruns⟩ := exec_loadWith_of_overlooks (ih target) hd hunloaded
    obtain ⟨b', -, hruns'⟩ := exec_loadWith_of_overlooks (ih target) hd' hunloaded
    rw [hflag, hwhole] at hruns'
    rcases hruns with ⟨shape, hrun, hexec⟩ | ⟨fault, hrun, hexec⟩ <;> rw [hrun] at hstill hruns' <;>
      obtain ⟨_, ⟨⟩, hexec'⟩ | ⟨_, ⟨⟩, hexec'⟩ := hruns' <;> rw [hexec, hexec']
    · refine ⟨Atlas.isLoaded_publish hstill target _, congrArg (Prod.mk _) ?_⟩
      simp only [Atlas.publish, Atlas.reshape, Graph.modify_comm b.graph hne, Graph.recordReferences_modify _ hne]
    · refine ⟨?_, congrArg (Prod.mk _) ?_⟩
      · rw [Graph.isLoaded, Atlas.get?_rollBack, if_neg hne.symm]
        exact hstill
      · simp only [Atlas.rollBack, Atlas.reshape, Graph.modify_comm b.graph hne]

end Work

end TypeAtlas
