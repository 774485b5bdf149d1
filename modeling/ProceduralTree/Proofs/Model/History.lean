import Mathlib.Data.List.Nodup
import ProceduralTree.Model.Basic
import ProceduralTree.Proofs.Mesh.Associativity

/-!
# Histories of a model

A model is made by calls that only ever add to it. What the calls were can be read off the model:
its parts show the meshes they were added with, in the order of the calls, and no later call
changes that.

## Main definitions

* `Model.Call` — one change of a model; `Model.after` makes several.
* `Model.Keeps` — a model that still has all that another one had.
* `Model.Records` — a model that shows what the calls added to it.

## Main statements

* `Model.keeps_call`, `Model.Records.call` — what one call does.
* `Model.Records.bark_eq` — the bark is made of the meshes of the branch calls alone.
* `Model.bark_after_append` — the bark of a tree that is made in two parts.
* `Model.after_ofLeaf` — what a model is after any calls.
-/

namespace ProceduralTree

open MeshArena LawfulMeshArena

variable {α S K : Type}

namespace Part

/-- The part with its mesh instead of the id. -/
def resolve? [MeshArena S α K] (store : S) (part : Part α K) : Option (Part α (Mesh α)) :=
  (get? store part.mesh).map fun mesh => ⟨part.kind, mesh, part.placement⟩

/-- The mesh of a branch. -/
def bark? (part : Part α K) : Option K :=
  match part.kind with
  | .branch => some part.mesh
  | .leaf => none

end Part

namespace Model

/-! ## Calls -/

/-- One change of a model. -/
inductive Call (α : Type) where
  | addBranch (mesh : Mesh α)
  | addLeaf (placement : Placement α)
  | setPlacement (placement : Placement α)

namespace Call

/-- The part that a call adds to a model with the given leaf. -/
def part? [Scalar α] (leaf : Mesh α) : Call α → Option (Part α (Mesh α))
  | addBranch mesh => some ⟨.branch, mesh, .identity⟩
  | addLeaf placement => some ⟨.leaf, leaf, placement⟩
  | setPlacement _ => none

/-- The mesh of a branch that is added. -/
def bark? : Call α → Option (Mesh α)
  | addBranch mesh => some mesh
  | addLeaf _ => none
  | setPlacement _ => none

theorem bind_bark?_part? [Scalar α] (leaf : Mesh α) (c : Call α) :
    (c.part? leaf).bind Part.bark? = c.bark? := by
  cases c <;> rfl

end Call

def call [Scalar α] [MeshArena S α K] (m : Model α S K) : Call α → Model α S K
  | .addBranch mesh => m.addBranch mesh
  | .addLeaf placement => m.addLeaf placement
  | .setPlacement placement => m.setPlacement placement

/-- The model after several calls. -/
def after [Scalar α] [MeshArena S α K] (m : Model α S K) (calls : List (Call α)) : Model α S K :=
  calls.foldl call m

/-! ## What later calls keep -/

section Keeps

variable [MeshArena S α K]

/-- The model has all the meshes and parts of an earlier one. -/
structure Keeps (earlier m : Model α S K) : Prop where
  store : ∀ id mesh, get? earlier.store id = some mesh → get? m.store id = some mesh
  parts : earlier.parts.toList <+: m.parts.toList
  leafMesh : m.leafMesh = earlier.leafMesh

variable {earlier between m : Model α S K}

theorem Keeps.refl (m : Model α S K) : m.Keeps m := ⟨fun _ _ h => h, List.prefix_rfl, rfl⟩

theorem Keeps.trans (h : earlier.Keeps between) (h' : between.Keeps m) : earlier.Keeps m where
  store id mesh hmesh := h'.store id mesh (h.store id mesh hmesh)
  parts := h.parts.trans h'.parts
  leafMesh := h'.leafMesh.trans h.leafMesh

theorem Keeps.resolve? (h : earlier.Keeps m) {part : Part α K} {shown : Part α (Mesh α)}
    (hpart : part.resolve? earlier.store = some shown) : part.resolve? m.store = some shown := by
  obtain ⟨mesh, hmesh, rfl⟩ := Option.map_eq_some_iff.1 hpart
  simp [Part.resolve?, h.store _ _ hmesh]

variable [Scalar α] [LawfulMeshArena S]

theorem keeps_call (m : Model α S K) (c : Call α) : m.Keeps (m.call c) := by
  cases c with
  | addBranch mesh =>
    exact ⟨fun _ _ h => get?_insert_of_get? h mesh, by simp [call, addBranch], rfl⟩
  | addLeaf placement => exact ⟨fun _ _ h => h, by simp [call, addLeaf], rfl⟩
  | setPlacement placement => exact ⟨fun _ _ h => h, List.prefix_rfl, rfl⟩

theorem keeps_after (m : Model α S K) (calls : List (Call α)) : m.Keeps (m.after calls) := by
  induction calls generalizing m with
  | nil => exact .refl m
  | cons c calls ih => exact (keeps_call m c).trans (ih (m.call c))

end Keeps

/-! ## What the calls added -/

section Records

variable [Scalar α] [MeshArena S α K]

/-- The model shows what the calls added to it, besides the leaf. -/
structure Records (m : Model α S K) (leaf : Mesh α) (calls : List (Call α)) : Prop where
  size : size m.store = 1 + m.count .branch
  leafMesh : get? m.store m.leafMesh = some leaf
  /-- No two branches share a mesh, and none has that of the leaves. -/
  nodup : (m.leafMesh :: m.parts.toList.filterMap Part.bark?).Nodup
  /-- Each part has the mesh that it was added with. -/
  parts : m.parts.toList.map (Part.resolve? m.store) = (calls.filterMap (Call.part? leaf)).map some
  leaves : ∀ part ∈ m.parts, part.kind = .leaf → part.mesh = m.leafMesh

variable {m : Model α S K} {leaf : Mesh α} {calls : List (Call α)}

theorem Records.exists_resolve? (h : m.Records leaf calls) {part : Part α K}
    (hpart : part ∈ m.parts.toList) : ∃ shown, part.resolve? m.store = some shown := by
  have hmem := List.mem_map_of_mem (f := Part.resolve? m.store) hpart
  rw [h.parts] at hmem
  obtain ⟨shown, -, hshown⟩ := List.mem_map.1 hmem
  exact ⟨shown, hshown.symm⟩

/-- An id that the store does not know is not in the model. -/
theorem Records.notMem_of_get? (h : m.Records leaf calls) {id : K} (hid : get? m.store id = none) :
    id ∉ m.leafMesh :: m.parts.toList.filterMap Part.bark? := by
  intro hmem
  obtain rfl | hmem := List.mem_cons.1 hmem
  · simp [h.leafMesh] at hid
  · obtain ⟨part, hpart, hbark⟩ := List.mem_filterMap.1 hmem
    obtain ⟨shown, hshown⟩ := h.exists_resolve? hpart
    unfold Part.bark? at hbark
    unfold Part.resolve? at hshown
    grind

theorem Records.addLeaf (h : m.Records leaf calls) (placement : Placement α) :
    (m.addLeaf placement).Records leaf (calls ++ [.addLeaf placement]) := by
  refine ⟨?_, h.leafMesh, ?_, ?_, ?_⟩
  · simpa [Model.addLeaf, count, Array.countP_push] using h.size
  · have hids : (m.addLeaf placement).parts.toList.filterMap Part.bark? =
        m.parts.toList.filterMap Part.bark? := by
      rw [Model.addLeaf, Array.toList_push, List.filterMap_append]
      exact List.append_nil _
    rw [hids]
    exact h.nodup
  · simp [Model.addLeaf, Call.part?, Part.resolve?, h.leafMesh, ← h.parts]
  · intro part hpart hkind
    obtain hpart | rfl := Array.mem_push.1 hpart
    · exact h.leaves part hpart hkind
    · rfl

theorem Records.setPlacement (h : m.Records leaf calls) (placement : Placement α) :
    (m.setPlacement placement).Records leaf (calls ++ [.setPlacement placement]) := by
  refine ⟨h.size, h.leafMesh, h.nodup, ?_, h.leaves⟩
  rw [List.filterMap_append, List.map_append]
  exact h.parts.trans (List.append_nil _).symm

variable [LawfulMeshArena S]

/-- After another call, the parts that a model has had show the same. -/
theorem Records.map_resolve? (h : m.Records leaf calls) (c : Call α) :
    m.parts.toList.map (Part.resolve? (m.call c).store) =
      (calls.filterMap (Call.part? leaf)).map some := by
  rw [← h.parts]
  apply List.map_congr_left
  intro part hpart
  obtain ⟨shown, hshown⟩ := h.exists_resolve? hpart
  rw [hshown]
  exact (keeps_call m c).resolve? hshown

theorem Records.addBranch (h : m.Records leaf calls) (mesh : Mesh α) :
    (m.addBranch mesh).Records leaf (calls ++ [.addBranch mesh]) := by
  have hshown := h.map_resolve? (.addBranch mesh)
  have hfresh : get? m.store (insert m.store mesh).1 = none := get?_fresh m.store mesh
  have hnew : get? (insert m.store mesh).2 (insert m.store mesh).1 = some mesh :=
    get?_insert_self m.store mesh
  refine ⟨?_, get?_insert_of_get? h.leafMesh mesh, ?_, ?_, ?_⟩
  · have := h.size
    simp only [Model.addBranch, count, size_insert, Array.countP_push, decide_true,
      if_true] at this ⊢
    omega
  · have hids : (m.addBranch mesh).parts.toList.filterMap Part.bark? =
        m.parts.toList.filterMap Part.bark? ++ [(insert m.store mesh).1] := by
      rw [Model.addBranch, Array.toList_push, List.filterMap_append]
      rfl
    have := List.Nodup.concat (h.notMem_of_get? hfresh) h.nodup
    rwa [List.concat_eq_append, List.cons_append, ← hids] at this
  · simpa [Model.call, Model.addBranch, Call.part?, Part.resolve?, hnew] using hshown
  · intro part hpart hkind
    obtain hpart | rfl := Array.mem_push.1 hpart
    · exact h.leaves part hpart hkind
    · simp at hkind

theorem Records.call (h : m.Records leaf calls) (c : Call α) :
    (m.call c).Records leaf (calls ++ [c]) := by
  cases c with
  | addBranch mesh => exact h.addBranch mesh
  | addLeaf placement => exact h.addLeaf placement
  | setPlacement placement => exact h.setPlacement placement

theorem records_ofLeaf (leaf : Mesh α) : (ofLeaf leaf : Model α S K).Records leaf [] where
  size := by simp [ofLeaf, size_insert, size_empty, count]
  leafMesh := get?_insert_self _ leaf
  nodup := by simp [ofLeaf]
  parts := rfl
  leaves := by simp [ofLeaf]

theorem Records.after (h : m.Records leaf calls) (later : List (Call α)) :
    (m.after later).Records leaf (calls ++ later) := by
  induction later generalizing m calls with
  | nil => rwa [List.append_nil]
  | cons c later ih =>
    rw [List.append_cons]
    exact ih (h.call c)

end Records

/-! ## The bark -/

section Bark

variable [MeshArena S α K]

theorem addBark_of_resolve? {store : S} {part : Part α K} {shown : Part α (Mesh α)}
    (h : part.resolve? store = some shown) (bark : Mesh α) :
    addBark store bark part =
      match shown.bark? with
      | none => .ok bark
      | some mesh => (bark.merge mesh).mapError .merge := by
  obtain ⟨mesh, hmesh, rfl⟩ := Option.map_eq_some_iff.1 h
  unfold addBark Part.bark? MeshArena.fetch
  cases part.kind with
  | leaf => rfl
  | branch =>
    simp only [hmesh]
    rfl

theorem foldlM_addBark {store : S} {parts : List (Part α K)} {shown : List (Part α (Mesh α))}
    (h : parts.map (Part.resolve? store) = shown.map some) (bark : Mesh α) :
    parts.foldlM (addBark store) bark =
      ((shown.filterMap Part.bark?).foldlM Mesh.merge bark).mapError .merge := by
  induction parts generalizing shown bark with
  | nil =>
    obtain rfl := List.map_eq_nil_iff.1 h.symm
    rfl
  | cons part parts ih =>
    obtain ⟨s, shown, rfl, hs, hshown⟩ := List.map_eq_cons_iff.1 h.symm
    rw [List.foldlM_cons, addBark_of_resolve? hs.symm, List.filterMap_cons]
    cases s.bark? with
    | none => exact ih hshown.symm bark
    | some mesh =>
      simp only [List.foldlM_cons]
      cases bark.merge mesh with
      | error e => rfl
      | ok joined => exact ih hshown.symm joined

variable [Scalar α] {m : Model α S K} {leaf : Mesh α} {calls : List (Call α)}

/-- The bark is made of the meshes of the branch calls alone. -/
theorem Records.bark_eq (h : m.Records leaf calls) :
    m.bark =
      ((calls.filterMap Call.bark?).foldlM Mesh.merge (.empty .triangleStrip)).mapError .merge := by
  unfold bark
  rw [← Array.foldlM_toList, foldlM_addBark h.parts, List.filterMap_filterMap]
  simp only [Call.bind_bark?_part?]

/-- The bark of a tree that is made in two parts comes from the barks of both. -/
theorem bark_after_append [LawfulMeshArena S] (leaf : Mesh α) (first : List (Call α))
    {second : List (Call α)}
    (hsecond : ∀ b ∈ second.filterMap Call.bark?, b.topology = .triangleStrip ∧ b.IsIndexed) :
    ((ofLeaf leaf : Model α S K).after (first ++ second)).bark =
      ((ofLeaf leaf : Model α S K).after first).bark >>= fun bark =>
        ((ofLeaf leaf : Model α S K).after second).bark >>= fun rest =>
          (bark.merge rest).mapError .merge := by
  have hbark (calls : List (Call α)) := ((records_ofLeaf leaf).after (S := S) calls).bark_eq
  simp only [List.nil_append] at hbark
  rw [hbark, hbark, hbark, List.filterMap_append, Mesh.foldlM_merge_append _ hsecond]
  cases (first.filterMap Call.bark?).foldlM Mesh.merge (.empty .triangleStrip) with
  | error e => rfl
  | ok bark =>
    cases (second.filterMap Call.bark?).foldlM Mesh.merge (.empty .triangleStrip) with
    | error e => rfl
    | ok rest => rfl

/-- No branch is without a mesh in the store. -/
theorem Records.bark_ne_store (h : m.Records leaf calls) (cause : StoreError) :
    m.bark ≠ .error (.store cause) := by
  rw [h.bark_eq]
  cases (calls.filterMap Call.bark?).foldlM Mesh.merge (.empty .triangleStrip) <;>
    simp [Except.mapError]

theorem Records.exists_bark_eq_error_iff (h : m.Records leaf calls) :
    (∃ e, m.bark = .error e) ↔
      (∃ b ∈ calls.filterMap Call.bark?, b.topology ≠ .triangleStrip) ∨
        restartIndex.toNat < Mesh.vertexTotal (calls.filterMap Call.bark?) := by
  have hempty : (Mesh.empty .triangleStrip : Mesh α).vertexCount ≤ restartIndex.toNat :=
    Nat.zero_le _
  have hfail := Mesh.foldlM_merge_eq_error_iff hempty (calls.filterMap Call.bark?)
  rw [Mesh.vertexCount_empty, Nat.zero_add] at hfail
  refine Iff.trans ?_ hfail
  rw [h.bark_eq]
  cases (calls.filterMap Call.bark?).foldlM Mesh.merge (.empty .triangleStrip) <;>
    simp [Except.mapError]

theorem Records.exists_bark_eq_ok (h : m.Records leaf calls)
    (hbarks : ∀ b ∈ calls.filterMap Call.bark?, b.topology = .triangleStrip ∧ b.IsIndexed)
    (hfits : Mesh.vertexTotal (calls.filterMap Call.bark?) ≤ restartIndex.toNat) :
    ∃ bark, m.bark = .ok bark ∧
      bark.faces.toList = Mesh.facesFrom 0 (calls.filterMap Call.bark?) := by
  rw [← Nat.zero_add (Mesh.vertexTotal _)] at hfits
  obtain ⟨bark, hmerge, hfaces⟩ :=
    Mesh.exists_foldlM_merge rfl (Mesh.isIndexed_empty .triangleStrip) hbarks hfits
  refine ⟨bark, ?_, hfaces⟩
  rw [h.bark_eq, hmerge]
  rfl

end Bark

/-! ## Any calls -/

/-- A model shows what was added to it, after any calls and whatever calls follow. Its bark has no
mesh exactly if a branch is no strip or there are too many vertices; otherwise it has the faces of
the branches in the order of their calls. -/
theorem after_ofLeaf [Scalar α] [MeshArena S α K] [LawfulMeshArena S] (leaf : Mesh α)
    (calls later : List (Call α)) :
    let m : Model α S K := (ofLeaf leaf).after calls
    let barks := calls.filterMap Call.bark?
    m.Records leaf calls ∧ m.Keeps (m.after later) ∧
    (∀ cause, m.bark ≠ .error (.store cause)) ∧
    ((∃ e, m.bark = .error e) ↔
      (∃ b ∈ barks, b.topology ≠ .triangleStrip) ∨
        restartIndex.toNat < Mesh.vertexTotal barks) ∧
    ((∀ b ∈ barks, b.topology = .triangleStrip ∧ b.IsIndexed) →
      Mesh.vertexTotal barks ≤ restartIndex.toNat →
      ∃ bark, m.bark = .ok bark ∧ bark.faces.toList = Mesh.facesFrom 0 barks) := by
  intro m barks
  have hm : m.Records leaf calls := (records_ofLeaf leaf).after calls
  exact ⟨hm, keeps_after m later, hm.bark_ne_store, hm.exists_bark_eq_error_iff,
    hm.exists_bark_eq_ok⟩

/-- The bark of a triangle and a square, with a leaf between them. -/
theorem after_ofLeaf_triangle_square :
    let leaf : Mesh Float := .empty .triangleList
    let triangle : Mesh Float := ⟨.triangleStrip, .replicate 3 0, #[], #[], #[0, 1, 2]⟩
    let square : Mesh Float := ⟨.triangleStrip, .replicate 4 0, #[], #[], #[0, 1, 2, 3]⟩
    let calls : List (Call Float) :=
      [.addBranch triangle, .addLeaf .identity, .setPlacement .identity, .addBranch square]
    ∃ bark, ((ofLeaf leaf : Model Float).after calls).bark = .ok bark ∧
      bark.faces.toList = [⟨0, 1, 2⟩, ⟨3, 4, 5⟩, ⟨5, 4, 6⟩] := by
  intro leaf triangle square calls
  have hbarks : ∀ b ∈ calls.filterMap Call.bark?, b.topology = .triangleStrip ∧ b.IsIndexed :=
    List.forall_mem_cons.2 ⟨by decide, List.forall_mem_cons.2 ⟨by decide, List.forall_mem_nil _⟩⟩
  obtain ⟨bark, hbark, hfaces⟩ := (after_ofLeaf leaf calls []).2.2.2.2 hbarks (by decide)
  refine ⟨bark, hbark, hfaces.trans ?_⟩
  decide

end Model

end ProceduralTree
