import ProceduralTree.Growth.Generator
import ProceduralTree.Proofs.Curve.Segment
import ProceduralTree.Proofs.Skeleton.Traversal

/-!
# Assembly, branch by branch

A model is assembled in one pass over the branches that carry a curve. Each of them adds a limb: its
tube and a leaf at its tip. The limbs stand in the order of the branches, so no branch is lost and
none has the leaf of another. Whatever arena keeps the meshes, their ids lead to them.

## Main definitions

* `Limb` — a branch with what it became.
* `Model.IsMadeOf` — the meshes and the parts of a model are those of its limbs.
* `Settings.IsBark`, `Branch.Bears` — the tube and the leaf that a branch may become.
* `Settings.IsGrown`, `Settings.IsGrownFrom` — the limb of one branch, and a model of such limbs.

## Main statements

* `Settings.addBranch_yields` — what one step adds.
* `Settings.exists_grown_of_assemble_yields` — what the whole pass makes.
* `Settings.build_limbs` — the model of a skeleton, and the report on it.
* `Settings.exists_build_eq_ok` — the model exists if the tubes do.
-/

namespace ProceduralTree

/-- A branch and what the assembly made of it. -/
structure Limb (α : Type) (K : Type := MeshId) where
  branch : Branch α
  /-- The id by which the store finds the bark. -/
  id : K
  bark : Mesh α
  leaf : Placement α

variable {σ α S K : Type}

theorem Branch.points_of_spline_eq_ok {b : Branch α} {spline : Spline α}
    (h : b.spline = .ok spline) : spline.points = b.points := by
  rw [Branch.spline, Spline.ofPoints] at h
  split at h
  · cases h
    rfl
  · cases h

theorem Branch.visible_eq (root : Branch α) :
    root.visible = root.lastFirst.filter fun b => ¬b.IsDegenerate := by
  rw [visible, reversePreorder_eq_lastFirst]

theorem Settings.counts_of_grid_eq_ok {s : Settings α} {traits : Traits α} {grid : TubeGrid}
    (h : s.grid traits = .ok grid) :
    grid.segments = s.segmentCount ∧ grid.radial = traits.radialSegments ∧ grid.caps = true := by
  rw [Settings.grid, TubeGrid.ofCounts] at h
  split at h
  · cases h
  split at h
  · cases h
  · cases h
    exact ⟨rfl, rfl, rfl⟩

variable [Scalar α]

/-- The parts of a limb in a model whose leaves have the given mesh. -/
def Limb.parts (leafMesh : K) (l : Limb α K) : List (Part α K) :=
  [⟨.branch, l.id, .identity⟩, ⟨.leaf, leafMesh, l.leaf⟩]

/-- The model consists of the limbs in their order. -/
structure Model.IsMadeOf [MeshArena S α K] (m : Model α S K) (leaf : Mesh α)
    (limbs : List (Limb α K)) : Prop where
  parts : m.parts.toList = limbs.flatMap (Limb.parts m.leafMesh)
  size_store : MeshArena.size m.store = 1 + limbs.length
  get?_leaf : MeshArena.get? m.store m.leafMesh = some leaf
  get?_bark : ∀ l ∈ limbs, MeshArena.get? m.store l.id = some l.bark
  /-- No two limbs share a mesh, and none has that of the leaves. -/
  nodup : (m.leafMesh :: limbs.map Limb.id).Nodup

/-- The mesh is that of a tube with caps along the spline through the points of the branch, with the
radii of the branch and as fine as settings and traits say. -/
def Settings.IsBark (s : Settings α) (traits : Traits α) (b : Branch α) (bark : Mesh α) : Prop :=
  ∃ (spline : Spline α) (grid : TubeGrid), spline.points = b.points ∧
    grid.segments = s.segmentCount ∧ grid.radial = traits.radialSegments ∧ grid.caps = true ∧
    Tube.mesh ⟨spline.curve, grid, b.radiusBegin, b.radiusEnd, s.barkColor⟩ = .ok bark

/-- The leaf is placed at the end of the spline of the branch and scaled to its tip. -/
def Branch.Bears (b : Branch α) (leaf : Placement α) : Prop :=
  ∃ spline : Spline α, spline.points = b.points ∧ spline.curve 1 = .ok leaf.offset ∧
    ∃ bonus, leaf.scale = leafScale b.radiusEnd bonus

namespace Model.IsMadeOf

open MeshArena LawfulMeshArena

variable [MeshArena S α K] {m : Model α S K} {leaf : Mesh α} {limbs : List (Limb α K)}

theorem setPlacement (h : m.IsMadeOf leaf limbs) (placement : Placement α) :
    (m.setPlacement placement).IsMadeOf leaf limbs :=
  ⟨h.parts, h.size_store, h.get?_leaf, h.get?_bark, h.nodup⟩

theorem size_parts (h : m.IsMadeOf leaf limbs) : m.parts.size = 2 * limbs.length := by
  rw [← Array.length_toList, h.parts, List.length_flatMap]
  simp [Limb.parts, Nat.mul_comm]

/-- An id that the store does not know belongs to no limb, nor to the leaves. -/
theorem notMem_of_get? (h : m.IsMadeOf leaf limbs) {id : K} (hid : get? m.store id = none) :
    id ∉ m.leafMesh :: limbs.map Limb.id := by
  intro hmem
  obtain rfl | hmem := List.mem_cons.1 hmem
  · cases hid.symm.trans h.get?_leaf
  · obtain ⟨l, hl, rfl⟩ := List.mem_map.1 hmem
    cases hid.symm.trans (h.get?_bark l hl)

variable [LawfulMeshArena S]

theorem ofLeaf (leaf : Mesh α) : (Model.ofLeaf leaf : Model α S K).IsMadeOf leaf [] where
  parts := rfl
  size_store := (size_insert _ leaf).trans (congrArg (· + 1) size_empty)
  get?_leaf := get?_insert_self _ leaf
  get?_bark := List.forall_mem_nil _
  nodup := List.nodup_singleton _

/-- A tube and a leaf are one more limb. -/
theorem addLimb (h : m.IsMadeOf leaf limbs) (b : Branch α) (bark : Mesh α)
    (placement : Placement α) :
    ((m.addBranch bark).addLeaf placement).IsMadeOf leaf
      (limbs ++ [⟨b, (insert m.store bark).1, bark, placement⟩]) where
  parts := by
    simp [Model.addBranch, Model.addLeaf, h.parts, Limb.parts]
  size_store := by
    change size (insert m.store bark).2 = _
    rw [size_insert, h.size_store, List.length_append, List.length_singleton, Nat.add_assoc]
  get?_leaf := get?_insert_of_get? h.get?_leaf bark
  get?_bark := by
    rw [List.forall_mem_append, List.forall_mem_singleton]
    exact ⟨fun l hl => get?_insert_of_get? (h.get?_bark l hl) bark, get?_insert_self m.store bark⟩
  nodup := by
    have hids := h.nodup.concat (h.notMem_of_get? (get?_fresh m.store bark))
    rw [List.concat_eq_append] at hids
    rw [List.map_append]
    exact hids

end Model.IsMadeOf

namespace Settings

open Growing

variable [RandomSource σ α] [MeshArena S α K] {s : Settings α} {traits : Traits α}
  {grid : TubeGrid} {source rest : σ} {m m' : Model α S K} {b : Branch α}

/-- What one step of the assembly needs, and what it adds. -/
theorem addBranch_yields :
    (s.addBranch traits grid m b).Yields source m' rest ↔ ∃ spline mesh placement,
      b.spline = .ok spline ∧ (s.tube grid b spline.curve).mesh = .ok mesh ∧
      (leafPlacement traits b spline.curve).Yields source placement rest ∧
      (m.addBranch mesh).addLeaf placement = m' := by
  simp only [addBranch, yields_bind, yields_ofExcept, yields_pure]
  constructor
  · rintro ⟨spline, _, ⟨hspline, rfl⟩, mesh, _, ⟨hmesh, rfl⟩, placement, _, hplacement, hm, rfl⟩
    exact ⟨spline, mesh, placement, hspline, hmesh, hplacement, hm⟩
  · rintro ⟨spline, mesh, placement, hspline, hmesh, hplacement, hm⟩
    exact ⟨spline, _, ⟨hspline, rfl⟩, mesh, _, ⟨hmesh, rfl⟩, placement, _, hplacement, hm, rfl⟩

/-- The bonus to the size of a leaf is drawn, and the leaf goes to the end of the curve. -/
theorem offset_of_leafPlacement_yields {curve : Curve α} {placement : Placement α}
    (h : (leafPlacement traits b curve).Yields source placement rest) :
    curve 1 = .ok placement.offset ∧ ∃ draw, RandomSource.scalar 0 traits.leafBonus = some draw ∧
      placement.scale = leafScale b.radiusEnd (draw source).1 := by
  simp only [leafPlacement, yields_bind, yields_drawIn, yields_ofExcept, yields_pure] at h
  obtain ⟨bonus, _, ⟨draw, hdraw, hbonus⟩, x, _, -, y, _, -, z, _, -, tip, _, ⟨htip, -⟩, rfl, -⟩ :=
    h
  exact ⟨htip, draw, hdraw, by rw [hbonus]⟩

/-- The limb is what one step of the assembly makes of its branch. -/
structure IsGrown (σ : Type) [RandomSource σ α] (s : Settings α) (traits : Traits α)
    (grid : TubeGrid) (spline : Spline α) (l : Limb α K) : Prop where
  spline_eq : l.branch.spline = .ok spline
  mesh_eq : (s.tube grid l.branch spline.curve).mesh = .ok l.bark
  curve_one : spline.curve 1 = .ok l.leaf.offset
  scale_eq : ∃ (draw : Draw σ α) (source : σ), RandomSource.scalar 0 traits.leafBonus = some draw ∧
    l.leaf.scale = leafScale l.branch.radiusEnd (draw source).1

/-- The model consists of grown limbs of the given branches, and is not moved. -/
def IsGrownFrom (σ : Type) [RandomSource σ α] (s : Settings α) (traits : Traits α)
    (grid : TubeGrid) (leaf : Mesh α) (branches : List (Branch α)) (m : Model α S K) : Prop :=
  ∃ limbs, m.IsMadeOf leaf limbs ∧ m.placement = .identity ∧ limbs.map Limb.branch = branches ∧
    ∀ l ∈ limbs, ∃ spline, IsGrown σ s traits grid spline l

theorem build_of_yields {root : Branch α} (h : (s.assemble traits root).Yields source m rest) :
    s.build traits root source = ⟨.ok m, m.events traits root, rest⟩ := by
  have hrun : (s.assemble traits root).run source = (.ok m, rest) := h
  rw [build, hrun]

theorem build_of_throws {root : Branch α} {e : GrowthError α}
    (h : (s.assemble traits root : Growing σ α (Model α S K)).Throws source e rest) :
    (s.build traits root source : Outcome σ α S K) = ⟨.error e, [], rest⟩ := by
  have hrun : (s.assemble traits root : Growing σ α (Model α S K)).run source = (.error e, rest) :=
    h
  rw [build, hrun]

section Limbs

variable [LawfulMeshArena S]

/-- One step adds the limb of its branch. -/
theorem IsGrownFrom.addBranch {leaf : Mesh α} {done : List (Branch α)}
    (hm : IsGrownFrom σ s traits grid leaf done m)
    (h : (s.addBranch traits grid m b).Yields source m' rest) :
    IsGrownFrom σ s traits grid leaf (done ++ [b]) m' := by
  obtain ⟨limbs, hmade, hplacement, hbranches, hlimbs⟩ := hm
  obtain ⟨spline, mesh, placement, hspline, hmesh, hleaf, rfl⟩ := addBranch_yields.1 h
  obtain ⟨htip, draw, hdraw, hscale⟩ := offset_of_leafPlacement_yields hleaf
  refine ⟨_, hmade.addLimb b mesh placement, hplacement, by simp [hbranches], ?_⟩
  rw [List.forall_mem_append, List.forall_mem_singleton]
  exact ⟨hlimbs, spline, hspline, hmesh, htip, draw, source, hdraw, hscale⟩

/-- The assembly makes grown limbs of the branches that carry a curve, and moves the whole. -/
theorem exists_grown_of_assemble_yields {root : Branch α}
    (h : (s.assemble traits root).Yields source m rest) :
    ∃ grid leaf limbs, s.grid traits = .ok grid ∧ s.leaf = .ok leaf ∧ m.IsMadeOf leaf limbs ∧
      m.placement = root.extent?.elim .identity Extent.centered ∧
      limbs.map Limb.branch = root.visible ∧
      ∀ l ∈ limbs, ∃ spline, IsGrown σ s traits grid spline l := by
  simp only [assemble, yields_bind, yields_ofExcept, yields_pure] at h
  obtain ⟨grid, _, ⟨hgrid, -⟩, leaf, _, ⟨hleaf, -⟩, m', _, hloop, hm, -⟩ := h
  obtain ⟨limbs, hmade, hplacement, hbranches, hlimbs⟩ := yields_foldlM
    (motive := IsGrownFrom σ s traits grid leaf) (fun _ _ _ _ _ _ hm hstep => hm.addBranch hstep)
    [] ⟨[], .ofLeaf leaf, rfl, rfl, by simp⟩ hloop
  refine ⟨grid, leaf, limbs, hgrid, hleaf, ?_, ?_, hbranches, hlimbs⟩ <;> rw [← hm]
  · split
    · exact hmade
    · exact hmade.setPlacement _
  · cases root.extent? with
    | none => exact hplacement
    | some e => rfl

/-- The limbs that the assembly makes of some branches. -/
def AreLimbs (s : Settings α) (traits : Traits α) (branches : List (Branch α))
    (limbs : List (Limb α K)) : Prop :=
  limbs.map Limb.branch = branches ∧
    ∀ l ∈ limbs, s.IsBark traits l.branch l.bark ∧ l.branch.Bears l.leaf

theorem exists_limbs_of_assemble_yields {root : Branch α}
    (h : (s.assemble traits root).Yields source m rest) :
    ∃ leaf limbs, s.leaf = .ok leaf ∧ m.IsMadeOf leaf limbs ∧
      s.AreLimbs traits root.visible limbs := by
  obtain ⟨grid, leaf, limbs, hgrid, hleaf, hmade, -, hbranches, hlimbs⟩ :=
    exists_grown_of_assemble_yields h
  refine ⟨leaf, limbs, hleaf, hmade, hbranches, fun l hl => ?_⟩
  obtain ⟨spline, hl⟩ := hlimbs l hl
  obtain ⟨hsegments, hradial, hcaps⟩ := counts_of_grid_eq_ok hgrid
  obtain ⟨draw, source, -, hscale⟩ := hl.scale_eq
  have hpoints := Branch.points_of_spline_eq_ok hl.spline_eq
  exact ⟨⟨spline, grid, hpoints, hsegments, hradial, hcaps, hl.mesh_eq⟩, spline, hpoints,
    hl.curve_one, _, hscale⟩

omit [LawfulMeshArena S] in
theorem yields_of_build_eq_ok {root : Branch α} (h : (s.build traits root source).result = .ok m) :
    let o : Outcome σ α S K := s.build traits root source
    (s.assemble traits root).Yields source m o.source ∧ o.events = m.events traits root := by
  obtain ⟨m', rest, hm'⟩ | ⟨e, rest, he⟩ :=
    yields_or_throws (s.assemble traits root : Growing σ α (Model α S K)) source
  · rw [build_of_yields hm'] at h ⊢
    cases h
    exact ⟨hm', rfl⟩
  · rw [build_of_throws he] at h
    cases h

/-- The model of a skeleton has one limb for each branch that carries a curve, in the order of the
traversal that takes the last fork first; the other branches are counted. -/
theorem build_limbs {root : Branch α} (h : (s.build traits root source).result = .ok m) :
    ∃ leaf limbs skipped, s.leaf = .ok leaf ∧ m.IsMadeOf leaf limbs ∧
      limbs.map Limb.branch = root.lastFirst.filter (fun b => ¬b.IsDegenerate) ∧
      (∀ l ∈ limbs, s.IsBark traits l.branch l.bark ∧ l.branch.Bears l.leaf) ∧
      MeshArena.size m.store = 1 + limbs.length ∧
      MeshArena.get? m.store m.leafMesh = some leaf ∧
      (∀ l ∈ limbs, MeshArena.get? m.store l.id = some l.bark) ∧
      skipped = root.lastFirst.countP (fun b => b.IsDegenerate) ∧
      limbs.length + skipped = root.size ∧
      (s.build traits root source : Outcome σ α S K).events =
        (if skipped = 0 then [] else [.skippedDegenerate skipped])
          ++ [.grown traits.initiator traits.derivations.toNat (1 + limbs.length)
            (2 * limbs.length)] := by
  obtain ⟨hyields, hevents⟩ := yields_of_build_eq_ok h
  obtain ⟨leaf, limbs, hleaf, hmade, hbranches, hlimbs⟩ := exists_limbs_of_assemble_yields hyields
  have hcount : root.degenerateCount = root.lastFirst.countP fun b => b.IsDegenerate := by
    rw [Branch.degenerateCount, Branch.reversePreorder_eq_lastFirst]
  rw [Branch.visible, Branch.reversePreorder_eq_lastFirst] at hbranches
  refine ⟨leaf, limbs, _, hleaf, hmade, hbranches, hlimbs, hmade.size_store, hmade.get?_leaf,
    hmade.get?_bark, rfl, ?_, ?_⟩
  · rw [← Branch.length_lastFirst, ← List.length_map (f := Limb.branch), hbranches,
      ← List.countP_eq_length_filter, Nat.add_comm,
      List.length_eq_countP_add_countP (fun b : Branch α => decide b.IsDegenerate)]
    simp
  · rw [hevents, Model.events, hmade.size_store, hmade.size_parts, hcount]

end Limbs

/-! ## Success -/

theorem exists_leafPlacement_yields {draw : Draw σ α} {curve : Curve α} {tip : Vec3 α}
    (hbonus : RandomSource.scalar 0 traits.leafBonus = some draw) (htip : curve 1 = .ok tip)
    (source : σ) :
    ∃ placement rest, (leafPlacement traits b curve).Yields source placement rest := by
  simp only [leafPlacement, yields_bind, yields_drawIn, yields_draw, yields_ofExcept, yields_pure]
  exact ⟨_, _, _, _, ⟨draw, hbonus, rfl⟩, _, _, rfl, _, _, rfl, _, _, rfl, tip, _, ⟨htip, rfl⟩,
    rfl, rfl⟩

/-- A tube with caps ends at a point. -/
theorem exists_curve_one {t : Tube α} {mesh : Mesh α} (hcaps : t.grid.caps = true)
    (hmesh : t.mesh = .ok mesh) : ∃ tip, t.curve 1 = .ok tip := by
  obtain ⟨-, -, -, positions, hpositions, -⟩ := Tube.mesh_eq_ok.1 hmesh
  obtain ⟨rings, -, hpositions⟩ := bind_eq_ok.1 hpositions
  obtain ⟨centers, hcenters, -⟩ := bind_eq_ok.1 hpositions
  rw [Tube.centers, if_pos hcaps] at hcenters
  obtain ⟨first, -, hcenters⟩ := bind_eq_ok.1 hcenters
  obtain ⟨last, hlast, -⟩ := bind_eq_ok.1 hcenters
  exact ⟨last, hlast⟩

/-- A branch with a tube can be added at any time, if the size of its leaf can be drawn. -/
theorem exists_addBranch_yields {draw : Draw σ α} {spline : Spline α} {mesh : Mesh α} {tip : Vec3 α}
    (hbonus : RandomSource.scalar 0 traits.leafBonus = some draw) (hspline : b.spline = .ok spline)
    (hmesh : (s.tube grid b spline.curve).mesh = .ok mesh) (htip : spline.curve 1 = .ok tip)
    (m : Model α S K) (source : σ) :
    ∃ m' rest, (s.addBranch traits grid m b).Yields source m' rest := by
  obtain ⟨placement, rest, hplacement⟩ := exists_leafPlacement_yields (b := b) hbonus htip source
  exact ⟨_, rest, addBranch_yields.2 ⟨spline, mesh, placement, hspline, hmesh, hplacement, rfl⟩⟩

/-- The assembly goes through if all branches that carry a curve can be added at any time. -/
theorem exists_build_of_addBranch {root : Branch α} {leaf : Mesh α}
    (hgrid : s.grid traits = .ok grid) (hleaf : s.leaf = .ok leaf)
    (hbranches : ∀ b ∈ root.visible, ∀ (m : Model α S K) (source : σ),
      ∃ m' rest, (s.addBranch traits grid m b).Yields source m' rest)
    (source : σ) : ∃ m : Model α S K, (s.build traits root source).result = .ok m := by
  obtain ⟨m, rest, hloop⟩ := exists_yields_foldlM hbranches (.ofLeaf leaf) source
  have hyields : ∃ m' : Model α S K, (s.assemble traits root).Yields source m' rest := by
    simp only [assemble, yields_bind, yields_ofExcept, yields_pure]
    exact ⟨_, grid, _, ⟨hgrid, rfl⟩, leaf, _, ⟨hleaf, rfl⟩, m, rest, hloop, rfl, rfl⟩
  obtain ⟨m', hm'⟩ := hyields
  exact ⟨m', by rw [build_of_yields hm']⟩

/-- The assembly goes through if all branches have tubes and the size of a leaf can be drawn. -/
theorem exists_build_eq_ok {draw : Draw σ α} {root : Branch α} {leaf : Mesh α}
    (hgrid : s.grid traits = .ok grid) (hleaf : s.leaf = .ok leaf)
    (hbonus : RandomSource.scalar 0 traits.leafBonus = some draw)
    (htubes : ∀ b ∈ root.visible, ∃ spline mesh,
      b.spline = .ok spline ∧ (s.tube grid b spline.curve).mesh = .ok mesh)
    (source : σ) : ∃ m : Model α S K, (s.build traits root source).result = .ok m := by
  refine exists_build_of_addBranch hgrid hleaf (fun b hb => ?_) source
  obtain ⟨spline, mesh, hspline, hmesh⟩ := htubes b hb
  obtain ⟨tip, htip⟩ := exists_curve_one (counts_of_grid_eq_ok hgrid).2.2 hmesh
  exact exists_addBranch_yields hbonus hspline hmesh htip

end Settings

/-! ## A bush -/

/-- A stream of which every draw is the least. -/
structure Lowest where

noncomputable instance : RandomSource Lowest ℝ where
  alternative _ pos source := (⟨0, pos⟩, source)
  initiator _ pos source := (⟨0, pos⟩, source)
  word low high := if low ≤ high then some fun source => (low, source) else none
  scalar low high := if low ≤ high then some fun source => (low, source) else none
  angle source := (0, source)

namespace Bush

noncomputable def traits : Traits ℝ where
  initiator := []
  derivations := 0
  turtle := default
  radialSegments := 3
  leafBonus := 0

/-- A twig from the origin to a point. -/
noncomputable def twig (tip : Vec3 ℝ) : Branch ℝ := ⟨#[0, tip], [], 1, 1⟩

/-- Two twigs on a branch that carries no curve. -/
noncomputable def root : Branch ℝ := ⟨#[0], [twig .xAxis, twig .zAxis], 1, 1⟩

theorem lastFirst_root : root.lastFirst = [root, twig .zAxis, twig .xAxis] := by
  simp [root, twig, Branch.lastFirst, Branch.lastFirstOf]

theorem visible_root : root.visible = [twig .zAxis, twig .xAxis] := by
  rw [Branch.visible_eq, lastFirst_root]
  simp [root, twig, Branch.IsDegenerate]

theorem exists_tube {tip : Vec3 ℝ} {grid : TubeGrid} (htip : (tip - 0).norm = 1)
    (hfits : grid.Fits) : ∃ spline mesh, (twig tip).spline = .ok spline ∧
      ((default : Settings ℝ).tube grid (twig tip) spline.curve).mesh = .ok mesh := by
  have hmove := keepsMoving_segment 0 tip (by rw [htip]; norm_num)
  obtain ⟨mesh, hmesh⟩ := Tube.exists_mesh
    (t := (default : Settings ℝ).tube grid (twig tip) (Spline.segment 0 tip).curve)
    rfl hmove zero_le_one zero_le_one hfits
  exact ⟨Spline.segment 0 tip, mesh, rfl, hmesh⟩

theorem exists_model : ∃ m, ((default : Settings ℝ).build traits root Lowest.mk).result = .ok m ∧
    m.store.size = 3 ∧ ((default : Settings ℝ).build traits root Lowest.mk).events =
      [.skippedDegenerate 1, .grown [] 0 3 4] := by
  let grid : TubeGrid := ⟨15, 3, true, by decide, by decide⟩
  have hfits : grid.Fits := by decide
  have hleaf : ∃ leaf, (default : Settings ℝ).leaf = .ok leaf :=
    ⟨_, if_pos ⟨rfl, not_le.2 zero_lt_one⟩⟩
  obtain ⟨leaf, hleaf⟩ := hleaf
  have htubes : ∀ b ∈ root.visible, ∃ spline mesh, b.spline = .ok spline ∧
      ((default : Settings ℝ).tube grid b spline.curve).mesh = .ok mesh := by
    intro b hb
    rw [visible_root, List.mem_pair] at hb
    obtain rfl | rfl := hb
    · exact exists_tube (by simp [Vec3.norm, Vec3.normSq, Vec3.dot, Vec3.zAxis]) hfits
    · exact exists_tube (by simp [Vec3.norm, Vec3.normSq, Vec3.dot, Vec3.xAxis]) hfits
  have hgrid : (default : Settings ℝ).grid traits = .ok grid := rfl
  obtain ⟨m, hm⟩ := Settings.exists_build_eq_ok hgrid hleaf (if_pos le_rfl) htubes Lowest.mk
  obtain ⟨leaf, limbs, skipped, -, -, hbranches, -, hsize, -, -, hskipped, -, hevents⟩ :=
    Settings.build_limbs hm
  have hlimbs : limbs.length = 2 := by
    rw [← List.length_map (f := Limb.branch), hbranches, lastFirst_root]
    simp [root, twig, Branch.IsDegenerate]
  have hone : skipped = 1 := by
    rw [hskipped, lastFirst_root]
    simp [root, twig, Branch.IsDegenerate]
  rw [hlimbs] at hsize hevents
  rw [hone] at hevents
  exact ⟨m, hm, hsize, hevents⟩

end Bush

end ProceduralTree
