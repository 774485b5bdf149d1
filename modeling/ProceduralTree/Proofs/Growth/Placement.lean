import ProceduralTree.Proofs.Curve.Interpolation
import ProceduralTree.Proofs.Growth.Samples
import ProceduralTree.Proofs.Skeleton.Reordering

/-!
# Where trees and leaves go

In exact arithmetic a leaf goes to the last point of its branch, and it is at least as large as the
tip of the branch asks for. A tree goes up or down until the least and the greatest height of its
skeleton are opposite to each other. Neither the tubes nor the places of leaves and tree depend on
the order of the forks.

## Main definitions

* `Extent.IsOf` — the extent of a set of heights.
* `Branch.heights` — the heights of the points that the branches with a curve have.

## Main statements

* `Branch.isOf_extent?` — the extent that a skeleton is moved by.
* `Settings.IsGrown.back?_eq`, `Settings.IsGrown.scale_mem` — where a leaf goes, and its size.
* `Settings.perm_limbs` — limbs of the same branches in another order.
* `Settings.build_placement` — the model of a skeleton, and of one with reordered forks.
-/

namespace ProceduralTree

/-! ## Extents -/

namespace Extent

/-- The extent holds the heights tightly; heights without an extent are none. -/
def IsOf (heights : Set ℝ) : Option (Extent ℝ) → Prop
  | none => heights = ∅
  | some e => IsLeast heights e.low ∧ IsGreatest heights e.high

variable {heights : Set ℝ} {e e' : Option (Extent ℝ)}

theorem IsOf.widen (h : IsOf heights e) (y : ℝ) : IsOf (insert y heights) (widen e y) := by
  cases e with
  | none =>
    obtain rfl : heights = ∅ := h
    rw [Extent.widen, if_pos (Scalar.isNumber_real y), insert_empty_eq]
    exact ⟨isLeast_singleton, isGreatest_singleton⟩
  | some e =>
    obtain ⟨hlow, hhigh⟩ := h
    rw [Extent.widen, if_pos (Scalar.isNumber_real y), Scalar.least_real, Scalar.greatest_real,
      min_comm, max_comm]
    exact ⟨hlow.insert y, hhigh.insert y⟩

theorem IsOf.foldl (h : IsOf heights e) (ys : List ℝ) :
    IsOf (heights ∪ {y | y ∈ ys}) (ys.foldl Extent.widen e) := by
  induction ys generalizing heights e with
  | nil => simpa using h
  | cons y ys ih =>
    have hset : heights ∪ {x | x ∈ y :: ys} = insert y heights ∪ {x | x ∈ ys} := by
      ext x
      simp [or_assoc, or_left_comm]
    rw [hset]
    exact ih (h.widen y)

theorem IsOf.unique (h : IsOf heights e) (h' : IsOf heights e') : e = e' := by
  rcases e with _ | ⟨low, high⟩ <;> rcases e' with _ | ⟨low', high'⟩
  · rfl
  · obtain rfl : heights = ∅ := h
    exact absurd h'.1.1 (Set.notMem_empty _)
  · obtain rfl : heights = ∅ := h'
    exact absurd h.1.1 (Set.notMem_empty _)
  · obtain rfl : low = low' := h.1.unique h'.1
    obtain rfl : high = high' := h.2.unique h'.2
    rfl

end Extent

namespace Branch

/-- The heights of all points of branches that carry a curve. -/
def heights (root : Branch ℝ) : Set ℝ :=
  {y | ∃ b ∈ root.lastFirst, ¬b.IsDegenerate ∧ ∃ p ∈ b.points, p.y = y}

theorem isOf_extent? (root : Branch ℝ) : Extent.IsOf root.heights root.extent? := by
  have hextent : root.extent? =
      (root.visible.flatMap fun b => b.points.toList.map Vec3.y).foldl Extent.widen none := by
    simp only [extent?, List.foldl_flatMap, List.foldl_map, Array.foldl_toList]
  have hheights : root.heights =
      ∅ ∪ {y | y ∈ root.visible.flatMap fun b => b.points.toList.map Vec3.y} := by
    ext y
    simp [heights, visible_eq, and_assoc]
  have hnone : Extent.IsOf ∅ none := rfl
  rw [hextent, hheights]
  exact hnone.foldl _

theorem extent?_eq_none (root : Branch ℝ) (h : ∀ b ∈ root.lastFirst, b.IsDegenerate) :
    root.extent? = none := by
  have hheights : root.heights = ∅ := by
    refine Set.eq_empty_of_forall_notMem ?_
    rintro y ⟨b, hb, hcurve, -⟩
    exact hcurve (h b hb)
  have hnone : Extent.IsOf ∅ none := rfl
  exact (hheights ▸ root.isOf_extent?).unique hnone

/-- A branch that carries a curve has a point. -/
theorem exists_extent (root : Branch ℝ) (h : ∃ b ∈ root.lastFirst, ¬b.IsDegenerate) :
    ∃ e, root.extent? = some e ∧ IsLeast root.heights e.low ∧ IsGreatest root.heights e.high := by
  obtain ⟨b, hb, hcurve⟩ := h
  have hsize : 0 < b.points.size := Nat.lt_of_lt_of_le two_pos (not_lt.1 hcurve)
  have hmem : b.points[0].y ∈ root.heights :=
    ⟨b, hb, hcurve, b.points[0], Array.getElem_mem hsize, rfl⟩
  have hextent := root.isOf_extent?
  cases he : root.extent? with
  | none =>
    rw [he] at hextent
    exact absurd hmem (Set.eq_empty_iff_forall_notMem.1 hextent _)
  | some e =>
    rw [he] at hextent
    exact ⟨e, rfl, hextent⟩

theorem Reordered.perm_visible {α : Type} {root root' : Branch α} (h : root.Reordered root') :
    (root.visible.map bare).Perm (root'.visible.map bare) := by
  have hfilter (b : Branch α) :
      b.visible.map bare = (b.lastFirst.map bare).filter fun b => ¬b.IsDegenerate := by
    rw [List.filter_map, visible_eq]
    rfl
  rw [hfilter, hfilter]
  exact h.perm_lastFirst.filter _

theorem Reordered.extent?_eq {root root' : Branch ℝ} (h : root.Reordered root') :
    root.extent? = root'.extent? := by
  have hmem (b : Branch ℝ) (y : ℝ) :
      y ∈ b.heights ↔ ∃ c ∈ b.visible.map bare, ∃ p ∈ c.points, p.y = y := by
    simp [heights, visible_eq, bare, and_assoc]
  have hheights : root.heights = root'.heights := by
    ext y
    simp only [hmem, h.perm_visible.mem_iff]
  exact root.isOf_extent?.unique (hheights ▸ root'.isOf_extent?)

end Branch

/-! ## Limbs -/

namespace Settings

variable {σ α S K : Type}

section Limbs

variable [Scalar α] [RandomSource σ α] {s : Settings α} {traits : Traits α} {grid : TubeGrid}
  {spline : Spline α} {l : Limb α K}

theorem IsGrown.bark_eq (hgrid : s.grid traits = .ok grid)
    (h : IsGrown σ s traits grid spline l) : s.bark traits l.branch = .ok l.bark := by
  rw [Settings.bark_eq hgrid h.spline_eq, h.mesh_eq]
  rfl

/-- A branch that has a limb can be added at any time, with other forks as well. -/
theorem IsGrown.exists_addBranch [MeshArena S α K] (h : IsGrown σ s traits grid spline l)
    {b : Branch α} (hb : l.branch.bare = b.bare) (m : Model α S K) (source : σ) :
    ∃ m' rest, (s.addBranch traits grid m b).Yields source m' rest := by
  obtain ⟨draw, -, hdraw, -⟩ := h.scale_eq
  have hadd : (s.addBranch traits grid m b : Growing σ α _) = s.addBranch traits grid m l.branch :=
    calc s.addBranch traits grid m b = s.addBranch traits grid m b.bare := rfl
      _ = s.addBranch traits grid m l.branch.bare := by rw [hb]
      _ = s.addBranch traits grid m l.branch := rfl
  rw [hadd]
  exact exists_addBranch_yields hdraw h.spline_eq h.mesh_eq h.curve_one m source

end Limbs

section Exact

variable [RandomSource σ ℝ] {s : Settings ℝ} {traits : Traits ℝ} {grid : TubeGrid}
  {spline : Spline ℝ} {l : Limb ℝ K} {source : σ}

theorem IsGrown.back?_eq (h : IsGrown σ s traits grid spline l) :
    l.branch.points.back? = some l.leaf.offset := by
  obtain ⟨p, hback, hone⟩ := spline.curve_one
  rw [h.curve_one, Except.ok.injEq] at hone
  rw [← Branch.points_of_spline_eq_ok h.spline_eq, hback, hone]

/-- A tube has no negative radius, so a bonus makes no leaf smaller. -/
theorem IsGrown.scale_mem (hrange : RandomSource.StaysInRange σ)
    (h : IsGrown σ s traits grid spline l) :
    3 / 2 * l.branch.radiusEnd ≤ l.leaf.scale ∧
      l.leaf.scale ≤ 3 / 2 * l.branch.radiusEnd * (1 + traits.leafBonus) := by
  obtain ⟨-, ⟨-, hradius⟩, -⟩ := Tube.mesh_eq_ok.1 h.mesh_eq
  have hradius : 0 ≤ l.branch.radiusEnd := not_lt.1 hradius
  obtain ⟨draw, source, hdraw, hscale⟩ := h.scale_eq
  obtain ⟨hlow, hhigh⟩ := hrange 0 _ draw hdraw source
  have hbonus : leafScale l.branch.radiusEnd (draw source).1 =
      3 / 2 * l.branch.radiusEnd * (1 + (draw source).1) := by
    rw [leafScale, leastLeafScale, Scalar.ratio_real]
    push_cast
    ring
  have hfactor : 0 ≤ 3 / 2 * l.branch.radiusEnd := by linarith
  rw [hscale, hbonus]
  exact ⟨le_mul_of_one_le_right hfactor (by linarith),
    mul_le_mul_of_nonneg_left (by linarith) hfactor⟩

/-- What becomes of a branch, whatever is drawn: its tube, and the place of its leaf. -/
noncomputable def barkAndTip (s : Settings ℝ) (traits : Traits ℝ) (b : Branch ℝ) :
    Except (GrowthError ℝ) (Mesh ℝ) × Option (Vec3 ℝ) :=
  (s.bark traits b, b.points.back?)

/-- The tubes and the places of the leaves are determined by the bare branches. -/
theorem map_limbs (hgrid : s.grid traits = .ok grid) {limbs : List (Limb ℝ K)}
    (hlimbs : ∀ l ∈ limbs, ∃ spline, IsGrown σ s traits grid spline l) :
    (limbs.map fun l => (l.bark, l.leaf.offset)).map (Prod.map .ok some) =
      ((limbs.map Limb.branch).map Branch.bare).map (s.barkAndTip traits) := by
  simp only [List.map_map]
  refine List.map_congr_left fun l hl => ?_
  obtain ⟨spline, hl⟩ := hlimbs l hl
  exact (Prod.ext (hl.bark_eq hgrid) hl.back?_eq).symm

/-- Limbs of the same bare branches have the same tubes and leaves in the same places. -/
theorem perm_limbs (hgrid : s.grid traits = .ok grid) {limbs limbs' : List (Limb ℝ K)}
    (hlimbs : ∀ l ∈ limbs, ∃ spline, IsGrown σ s traits grid spline l)
    (hlimbs' : ∀ l ∈ limbs', ∃ spline, IsGrown σ s traits grid spline l)
    (hperm : ((limbs.map Limb.branch).map Branch.bare).Perm
      ((limbs'.map Limb.branch).map Branch.bare)) :
    (limbs.map fun l => (l.bark, l.leaf.offset)).Perm
      (limbs'.map fun l => (l.bark, l.leaf.offset)) := by
  have hok : (Except.ok : Mesh ℝ → Except (GrowthError ℝ) (Mesh ℝ)).Injective := fun _ _ =>
    Except.ok.inj
  rw [← List.map_perm_map_iff (hok.prodMap (Option.some_injective _)), map_limbs hgrid hlimbs,
    map_limbs hgrid hlimbs']
  exact hperm.map _

variable [MeshArena S ℝ K] [LawfulMeshArena S]

/-- With its forks in another order, a skeleton that has a model has one with the same limbs. -/
theorem exists_build_of_reordered {root root' : Branch ℝ} {leaf : Mesh ℝ}
    {limbs : List (Limb ℝ K)} (hgrid : s.grid traits = .ok grid) (hleaf : s.leaf = .ok leaf)
    (hbranches : limbs.map Limb.branch = root.visible)
    (hlimbs : ∀ l ∈ limbs, ∃ spline, IsGrown σ s traits grid spline l)
    (h : root.Reordered root') (source : σ) :
    ∃ (m' : Model ℝ S K) (limbs' : List (Limb ℝ K)),
      (s.build traits root' source).result = .ok m' ∧ m'.IsMadeOf leaf limbs' ∧
      m'.placement = root.extent?.elim .identity Extent.centered ∧
      (limbs.map fun l => (l.bark, l.leaf.offset)).Perm
        (limbs'.map fun l => (l.bark, l.leaf.offset)) := by
  have hbuild : ∃ m' : Model ℝ S K, (s.build traits root' source).result = .ok m' := by
    refine exists_build_of_addBranch hgrid hleaf (fun b hb => ?_) source
    obtain ⟨b', hb', hbare⟩ := List.mem_map.1 (h.perm_visible.mem_iff.2 (List.mem_map_of_mem hb))
    rw [← hbranches] at hb'
    obtain ⟨l, hl, rfl⟩ := List.mem_map.1 hb'
    obtain ⟨spline, hl⟩ := hlimbs l hl
    exact hl.exists_addBranch hbare
  obtain ⟨m', hm'⟩ := hbuild
  obtain ⟨grid', leaf', limbs', hgrid', hleaf', hmade, hplacement, hbranches', hlimbs'⟩ :=
    exists_grown_of_assemble_yields (yields_of_build_eq_ok hm').1
  obtain rfl := Except.ok.inj (hgrid.symm.trans hgrid')
  obtain rfl := Except.ok.inj (hleaf.symm.trans hleaf')
  rw [h.extent?_eq]
  refine ⟨m', limbs', hm', hmade, hplacement, perm_limbs hgrid hlimbs hlimbs' ?_⟩
  rw [hbranches, hbranches']
  exact h.perm_visible

/-- The leaf of a branch goes to the last point of the branch and is at least half again as large as
the tip is thick, at most by the greatest bonus larger. The tree stays where it is if no branch
carries a curve; otherwise it goes up or down until its least and its greatest height are opposite
to each other. If forks are put in another order, there still is a model, in the same place and of
the same tubes with leaves at the same points. -/
theorem build_placement (hrange : RandomSource.StaysInRange σ) {root : Branch ℝ}
    {m : Model ℝ S K} (h : (s.build traits root source).result = .ok m) :
    ∃ leaf limbs, m.IsMadeOf leaf limbs ∧
      limbs.map Limb.branch = root.lastFirst.filter (fun b => ¬b.IsDegenerate) ∧
      (∀ l ∈ limbs, l.branch.points.back? = some l.leaf.offset ∧
        3 / 2 * l.branch.radiusEnd ≤ l.leaf.scale ∧
        l.leaf.scale ≤ 3 / 2 * l.branch.radiusEnd * (1 + traits.leafBonus)) ∧
      ((∀ b ∈ root.lastFirst, b.IsDegenerate) → m.placement = .identity) ∧
      ((∃ b ∈ root.lastFirst, ¬b.IsDegenerate) → ∃ low high dy,
        IsLeast root.heights low ∧ IsGreatest root.heights high ∧
        m.placement = { Placement.identity with offset := ⟨0, dy, 0⟩ } ∧
        low + dy = -(high + dy)) ∧
      ∀ root', root.Reordered root' → ∀ source' : σ,
        ∃ (m' : Model ℝ S K) (limbs' : List (Limb ℝ K)),
          (s.build traits root' source').result = .ok m' ∧ m'.IsMadeOf leaf limbs' ∧
          m'.placement = m.placement ∧
          (limbs.map fun l => (l.bark, l.leaf.offset)).Perm
            (limbs'.map fun l => (l.bark, l.leaf.offset)) := by
  obtain ⟨grid, leaf, limbs, hgrid, hleaf, hmade, hplacement, hbranches, hlimbs⟩ :=
    exists_grown_of_assemble_yields (yields_of_build_eq_ok h).1
  refine ⟨leaf, limbs, hmade, hbranches.trans root.visible_eq, fun l hl => ?_, fun hnone => ?_,
    fun hsome => ?_, fun root' hroot source' => ?_⟩
  · obtain ⟨spline, hl⟩ := hlimbs l hl
    exact ⟨hl.back?_eq, hl.scale_mem hrange⟩
  · rw [hplacement, root.extent?_eq_none hnone]
    rfl
  · obtain ⟨e, hextent, hlow, hhigh⟩ := root.exists_extent hsome
    rw [hextent] at hplacement
    refine ⟨e.low, e.high, _, hlow, hhigh, hplacement, ?_⟩
    push_cast
    ring
  · rw [hplacement]
    exact exists_build_of_reordered hgrid hleaf hbranches hlimbs hroot source'

end Exact

end Settings

/-! ## Twigs of different height -/

namespace Bush

/-- Two twigs of unit length, on a branch that carries no curve. -/
noncomputable def fork (p q : Vec3 ℝ) : Branch ℝ := ⟨#[0], [twig p, twig q], 1, 1⟩

theorem reordered_fork (p q : Vec3 ℝ) : (fork p q).Reordered (fork q p) :=
  .permute (.swap _ _ _)

theorem lastFirst_fork (p q : Vec3 ℝ) : (fork p q).lastFirst = [fork p q, twig q, twig p] := by
  simp [fork, twig, Branch.lastFirst, Branch.lastFirstOf]

theorem visible_fork (p q : Vec3 ℝ) : (fork p q).visible = [twig q, twig p] := by
  rw [Branch.visible_eq, lastFirst_fork]
  simp [fork, twig, Branch.IsDegenerate]

theorem heights_fork : (fork .yAxis .zAxis).heights = {0, 1} := by
  ext y
  simp only [Branch.heights, lastFirst_fork]
  simp [twig, fork, Branch.IsDegenerate, Vec3.yAxis, Vec3.zAxis]
  tauto

theorem exists_build_fork :
    ∃ m, ((default : Settings ℝ).build traits (fork .yAxis .zAxis) Lowest.mk).result = .ok m := by
  refine exists_build (if_pos le_rfl) (fun b hb => ?_) _
  rw [visible_fork, List.mem_pair] at hb
  obtain rfl | rfl := hb
  · exact ⟨.zAxis, by simp, rfl⟩
  · exact ⟨.yAxis, by simp, rfl⟩

/-- One of the twigs is higher than the other. -/
theorem build_placement_fork : ∃ m m',
    ((default : Settings ℝ).build traits (fork .yAxis .zAxis) Lowest.mk).result = .ok m ∧
    ((default : Settings ℝ).build traits (fork .zAxis .yAxis) Lowest.mk).result = .ok m' ∧
    m.placement.offset = ⟨0, -1 / 2, 0⟩ ∧ m'.placement = m.placement := by
  obtain ⟨m, hm⟩ := exists_build_fork
  obtain ⟨leaf, limbs, -, -, -, -, hplacement, hreordered⟩ :=
    Settings.build_placement staysInRange_lowest hm
  obtain ⟨m', -, hm', -, hsame, -⟩ := hreordered _ (reordered_fork _ _) Lowest.mk
  have hcurve : ∃ b ∈ (fork .yAxis .zAxis).lastFirst, ¬b.IsDegenerate := by
    rw [lastFirst_fork]
    exact ⟨twig .zAxis, by simp, Nat.lt_irrefl 2⟩
  obtain ⟨low, high, dy, hlow, hhigh, hmoved, hbalanced⟩ := hplacement hcurve
  rw [heights_fork] at hlow hhigh
  obtain rfl : low = 0 := hlow.unique ⟨by simp, by simp⟩
  obtain rfl : high = 1 := hhigh.unique ⟨by simp, by simp⟩
  obtain rfl : dy = -1 / 2 := by linarith
  exact ⟨m, m', hm, hm', congrArg Placement.offset hmoved, hsame⟩

end Bush

end ProceduralTree
