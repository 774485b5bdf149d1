import ProceduralTree.Proofs.Growth.Assembly
import ProceduralTree.Proofs.Growth.Sampling
import ProceduralTree.Proofs.Scalar.Unit
import ProceduralTree.Proofs.Skeleton.Spacing

/-!
# Failures of growth

A tree may fail to grow in many ways. The validation of the settings, the omission of branches that
carry no curve and the care that samples of a curve are taken with rule out most of them.

## Main definitions

* `Settings.FailsToAssemble`, `Settings.FailsToGrow` — what keeps a skeleton from becoming a model,
  and a tree from growing.
* `RandomSource.WordsStayInRange`, `RandomSource.StaysInRange` — streams whose draws lie in their
  ranges.
* `Settings.HasUsableRanges` — settings of which everything can be drawn.
* `GrowthError.IsOfTree` — the errors that remain.

## Main statements

* `Settings.failsWith_assemble` — every failure of the assembly.
* `Settings.of_regenerate_eq_error` — every failure of a tree of valid settings.
* `Generator.regenerate_iterate_error` — few failures remain, and those of an empty draw.
* `Settings.IsValid.hasUsableRanges` — in exact arithmetic everything can be drawn.
-/

namespace ProceduralTree

open Growing

variable {σ α S K : Type}

theorem Branch.exists_spline {b : Branch α} (h : ¬b.IsDegenerate) :
    ∃ spline, b.spline = .ok spline ∧ spline.points = b.points :=
  ⟨_, dif_pos (Nat.le_of_not_lt h), rfl⟩

theorem Settings.exists_grid {s : Settings α} {traits : Traits α} (hsegments : s.segmentCount ≠ 0)
    (hradial : traits.radialSegments ≠ 0) : ∃ grid, s.grid traits = .ok grid :=
  ⟨_, (dif_neg hsegments).trans (dif_neg hradial)⟩

variable [Scalar α]

/-- One is finite and positive, as the radius of the leaves has to be. -/
class PositiveOne (α : Type) [Scalar α] : Prop where
  isFinite_one : Scalar.isFinite (1 : α) = true
  not_one_le_zero : ¬(1 : α) ≤ 0

instance : PositiveOne ℝ := ⟨rfl, not_le.2 zero_lt_one⟩

instance : PositiveOne Float := ⟨rfl, by decide⟩

theorem Settings.exists_leaf [PositiveOne α] (s : Settings α) : ∃ leaf, s.leaf = .ok leaf :=
  ⟨_, if_pos ⟨PositiveOne.isFinite_one, PositiveOne.not_one_le_zero⟩⟩

variable [RandomSource σ α] [MeshArena S α K] {s : Settings α} {traits : Traits α}
  {root : Branch α} {source rest : σ} {e : GrowthError α}

/-! ## Failures of the assembly -/

namespace Settings

/-- What keeps a skeleton from becoming a model. -/
inductive FailsToAssemble (σ : Type) [RandomSource σ α] (s : Settings α) (traits : Traits α)
    (root : Branch α) : GrowthError α → Prop
  | grid {cause} (h : s.grid traits = .error cause) : FailsToAssemble σ s traits root (.tube cause)
  | leaf {cause} (h : s.leaf = .error cause) : FailsToAssemble σ s traits root (.leaf cause)
  /-- The size of the leaves cannot be drawn. -/
  | bonus (h : ¬CanDraw σ ⟨0, traits.leafBonus⟩) : FailsToAssemble σ s traits root .emptyDraw
  /-- A branch that carries a curve has no tube. -/
  | tube {grid b spline cause} (hgrid : s.grid traits = .ok grid) (hb : b ∈ root.visible)
    (hspline : b.spline = .ok spline) (h : (s.tube grid b spline.curve).mesh = .error cause) :
    FailsToAssemble σ s traits root (.tube cause)

theorem failsWith_leafPlacement {b : Branch α} {curve : Curve α} {tip : Vec3 α}
    (htip : curve 1 = .ok tip) :
    (leafPlacement traits b curve : Growing σ α _).FailsWith (FailsToAssemble σ s traits root) := by
  unfold leafPlacement
  refine (failsWith_drawIn fun h => ?_).bind fun _ _ _ _ => ?_
  · exact .bonus (by simp [CanDraw, h])
  iterate 3 refine (failsWith_draw _).bind fun _ _ _ _ => ?_
  refine (failsWith_ofExcept fun _ h => ?_).bind fun _ _ _ _ => failsWith_pure _
  cases htip.symm.trans h

theorem failsWith_addBranch {grid : TubeGrid} (hgrid : s.grid traits = .ok grid) {b : Branch α}
    (hb : b ∈ root.visible) (m : Model α S K) :
    (s.addBranch traits grid m b : Growing σ α _).FailsWith (FailsToAssemble σ s traits root) := by
  unfold addBranch
  have hvisible : ¬b.IsDegenerate := by simpa using (List.mem_filter.1 hb).2
  obtain ⟨spline, hspline, -⟩ := Branch.exists_spline hvisible
  refine (failsWith_ofExcept fun _ h => ?_).bind fun _ _ _ h => ?_
  · cases hspline.symm.trans h
  obtain ⟨h, -⟩ := yields_ofExcept.1 h
  refine (failsWith_ofExcept fun _ hmesh => .tube hgrid hb h hmesh).bind fun _ mesh _ hmesh => ?_
  obtain ⟨hmesh, -⟩ := yields_ofExcept.1 hmesh
  obtain ⟨tip, htip⟩ := exists_curve_one (counts_of_grid_eq_ok hgrid).2.2 hmesh
  exact (failsWith_leafPlacement htip).bind fun _ _ _ _ => failsWith_pure _

/-- The assembly fails for nothing else. -/
theorem failsWith_assemble :
    (s.assemble traits root : Growing σ α (Model α S K)).FailsWith
      (FailsToAssemble σ s traits root) := by
  unfold assemble
  refine (failsWith_ofExcept fun _ h => .grid h).bind fun _ grid _ hgrid => ?_
  obtain ⟨hgrid, -⟩ := yields_ofExcept.1 hgrid
  refine (failsWith_ofExcept fun _ h => .leaf h).bind fun _ _ _ _ => ?_
  refine (failsWith_foldlM (fun b hb m => failsWith_addBranch hgrid hb m) _).bind fun _ _ _ _ => ?_
  exact failsWith_pure _

theorem failsToAssemble_of_build
    (h : (s.build traits root source : Outcome σ α S K).result = .error e) :
    FailsToAssemble σ s traits root e := by
  obtain ⟨m, rest, hm⟩ | ⟨e', rest, he'⟩ :=
    yields_or_throws (s.assemble traits root : Growing σ α (Model α S K)) source
  · rw [build_of_yields hm] at h
    cases h
  · rw [build_of_throws he'] at h
    cases h
    exact failsWith_assemble.of_throws he'

/-! ## Failures of a tree -/

/-- What keeps a tree of valid settings from growing, once its traits are drawn. -/
inductive FailsToGrow (σ : Type) [RandomSource σ α] (s : Settings α) (traits : Traits α) :
    GrowthError α → Prop
  | turtle (cause : TurtleError) : FailsToGrow σ s traits (.turtle cause)
  | assembly {sentence i e} (hi : interpret (.start traits.turtle) sentence = .ok i)
    (h : FailsToAssemble σ s traits i.root e) : FailsToGrow σ s traits e

theorem failsToGrow_of_grow (hvalid : s.IsValid)
    (h : (s.grow traits source : Outcome σ α S K).result = .error e) :
    FailsToGrow σ s traits e := by
  obtain ⟨rules, hrules⟩ := hvalid.rules
  simp only [grow, hrules] at h
  split at h
  · cases h
    exact .turtle _
  · next i hi => exact .assembly hi (failsToAssemble_of_build h)

theorem regenerate_of_yields (h : s.sampleTraits.Yields source traits rest) :
    (s.regenerate source : Outcome σ α S K) = s.grow traits rest := by
  have hrun : s.sampleTraits.run source = (.ok traits, rest) := h
  rw [regenerate, hrun]

theorem regenerate_of_throws (h : s.sampleTraits.Throws source e rest) :
    (s.regenerate source : Outcome σ α S K) = ⟨.error e, [], rest⟩ := by
  have hrun : s.sampleTraits.run source = (.error e, rest) := h
  rw [regenerate, hrun]

/-- Either the traits of a tree cannot be drawn, or the tree fails to grow with its traits. -/
theorem of_regenerate_eq_error (hvalid : s.IsValid)
    (h : (s.regenerate source : Outcome σ α S K).result = .error e) :
    e = .emptyDraw ∧ (∃ rest, s.sampleTraits.Throws source e rest) ∨
      ∃ traits rest, s.sampleTraits.Yields source traits rest ∧ FailsToGrow σ s traits e := by
  obtain ⟨traits, rest, htraits⟩ | ⟨e', rest, he'⟩ := yields_or_throws s.sampleTraits source
  · rw [regenerate_of_yields htraits] at h
    exact .inr ⟨traits, rest, htraits, failsToGrow_of_grow hvalid h⟩
  · rw [regenerate_of_throws he'] at h
    cases h
    exact .inl ⟨(failsOnlyWith_sampleTraits hvalid.initiators).of_throws he', rest, he'⟩

end Settings

/-! ## Errors of trees -/

namespace RandomSource

/-- Words are drawn from within their ranges. -/
def WordsStayInRange (σ : Type) [RandomSource σ α] : Prop :=
  ∀ (low high : UInt32) (draw : Draw σ UInt32), word low high = some draw →
    ∀ source, low ≤ (draw source).1 ∧ (draw source).1 ≤ high

/-- Scalars are drawn from within their ranges. -/
def StaysInRange (σ : Type) {α : Type} [LE α] [RandomSource σ α] : Prop :=
  ∀ (low high : α) (draw : Draw σ α), scalar low high = some draw →
    ∀ source, low ≤ (draw source).1 ∧ (draw source).1 ≤ high

end RandomSource

/-- The errors of trees that grow from valid settings. -/
inductive GrowthError.IsOfTree : GrowthError α → Prop
  | unknownSymbol (symbol : Char) (position : Nat) :
    IsOfTree (.turtle (.unknownSymbol symbol position))
  | radius {r : α} (h : ¬Tube.IsRadius r) : IsOfTree (.tube (.radius r))
  | vertexCount {count : Nat} (h : restartIndex.toNat ≤ count) :
    IsOfTree (.tube (.vertexCount count))
  /-- The curve of a branch stalls. -/
  | noDirection : IsOfTree (.tube (.curve .noDirection))

theorem Tube.isOfTree_of_mesh_eq_error [LawfulParameters α] {t : Tube α} {point : α → Vec3 α}
    (hcurve : t.curve = .ofPoint point) {cause : TubeError α} (h : t.mesh = .error cause) :
    GrowthError.IsOfTree (.tube cause) := by
  obtain ⟨r, -, hr, rfl⟩ | ⟨hfits, rfl⟩ | ⟨cause, hpositions, rfl⟩ := mesh_eq_error h
  · exact .radius hr
  · exact .vertexCount (UInt64.le_iff_toNat_le.1 (UInt64.not_lt.1 hfits))
  · obtain ⟨-, herror⟩ | ⟨-, positions, hok⟩ := positions_ofPoint hcurve
    · cases herror.symm.trans hpositions
      exact .noDirection
    · cases hok.symm.trans hpositions

namespace Settings

/-- Something can be drawn from each range that a tree is drawn from. -/
structure HasUsableRanges (σ : Type) [RandomSource σ α] (s : Settings α) : Prop where
  derivations : (RandomSource.word (σ := σ) s.derivations.low s.derivations.high).isSome
  radialSegments : (RandomSource.word (σ := σ) s.radialSegments.low s.radialSegments.high).isSome
  range (trait : TurtleTrait) : CanDraw σ (s.range trait)
  /-- The bonus, after any number of steps that may be drawn. -/
  leafShare {steps : UInt32}
    (hsteps : IsDraw (RandomSource.word (σ := σ) s.derivations.low s.derivations.high) steps) :
    CanDraw σ ⟨0, s.leafShare steps⟩
  /-- The size of a leaf, with any bonus that may be drawn. -/
  leafBonus {steps : UInt32} {bonus : α}
    (hsteps : IsDraw (RandomSource.word (σ := σ) s.derivations.low s.derivations.high) steps)
    (hbonus : IsDraw (RandomSource.scalar (σ := σ) 0 (s.leafShare steps)) bonus) :
    CanDraw σ ⟨0, bonus⟩

theorem HasUsableRanges.exists_sampleTraits (h : HasUsableRanges σ s)
    (hinitiators : s.initiators ≠ []) (source : σ) :
    ∃ traits rest, s.sampleTraits.Yields source traits rest := by
  obtain ⟨steps, hsteps⟩ := Option.isSome_iff_exists.1 h.derivations
  obtain ⟨radial, hradial⟩ := Option.isSome_iff_exists.1 h.radialSegments
  exact exists_sampleTraits_yields hinitiators hsteps h.range hradial
    (fun _ => h.leafShare ⟨steps, _, hsteps, rfl⟩) source

theorem HasDrawn.radialSegments_ne (hwords : RandomSource.WordsStayInRange σ) (hvalid : s.IsValid)
    (h : HasDrawn σ s traits) : traits.radialSegments ≠ 0 := by
  obtain ⟨draw, source, hdraw, hradial⟩ := h.radialSegments
  have hlow := hradial ▸ (hwords _ _ draw hdraw source).1
  intro hzero
  rw [hzero] at hlow
  exact hvalid.radialSegments.2 (UInt32.le_zero_iff.1 hlow)

variable [PositiveOne α] [LawfulParameters α]

theorem isOfTree_or_of_failsToGrow (hwords : RandomSource.WordsStayInRange σ) (hvalid : s.IsValid)
    (hdrawn : HasDrawn σ s traits) (h : FailsToGrow σ s traits e) :
    e.IsOfTree ∨ e = .emptyDraw ∧ ¬CanDraw σ ⟨0, traits.leafBonus⟩ := by
  cases h with
  | turtle cause =>
    obtain ⟨symbol, position⟩ := cause
    exact .inl (.unknownSymbol symbol position)
  | assembly hi h =>
    cases h with
    | grid h =>
      have hradial := hdrawn.radialSegments_ne hwords hvalid
      obtain ⟨grid, hgrid⟩ := exists_grid hvalid.segmentCount hradial
      cases hgrid.symm.trans h
    | leaf h =>
      obtain ⟨leaf, hleaf⟩ := exists_leaf s
      cases hleaf.symm.trans h
    | bonus h => exact .inr ⟨rfl, h⟩
    | tube _ _ _ h => exact .inl (Tube.isOfTree_of_mesh_eq_error rfl h)

theorem isOfTree_or_of_regenerate_eq_error (hwords : RandomSource.WordsStayInRange σ)
    (hvalid : s.IsValid) (h : (s.regenerate source : Outcome σ α S K).result = .error e) :
    e.IsOfTree ∨ e = .emptyDraw ∧ ¬HasUsableRanges σ s := by
  obtain ⟨rfl, rest, hthrows⟩ | ⟨traits, rest, htraits, hfails⟩ := of_regenerate_eq_error hvalid h
  · refine .inr ⟨rfl, fun husable => ?_⟩
    obtain ⟨traits, rest', htraits⟩ := husable.exists_sampleTraits hvalid.initiators source
    cases htraits.symm.trans hthrows
  · have hdrawn := hasDrawn_of_sampleTraits_yields htraits
    refine (isOfTree_or_of_failsToGrow hwords hvalid hdrawn hfails).imp_right ?_
    rintro ⟨rfl, hbonus⟩
    exact ⟨rfl, fun husable => hbonus (husable.leafBonus hdrawn.derivations hdrawn.leafBonus)⟩

end Settings

theorem wordsStayInRange_keystream : RandomSource.WordsStayInRange Keystream :=
  fun _ _ _ => Keystream.mem_of_wordIn

/-! ## Ranges of exact numbers -/

/-- Something can be drawn from each range whose ends are in order. -/
structure RandomSource.IsTotal (σ : Type) {α : Type} [LE α] [RandomSource σ α] : Prop where
  word {low high : UInt32} (h : low ≤ high) : (RandomSource.word (σ := σ) low high).isSome
  scalar {low high : α} (h : low ≤ high) : (RandomSource.scalar (σ := σ) low high).isSome

/-- In exact arithmetic the ranges of valid settings are in order, and so are those of the bonus and
of the size of a leaf. -/
theorem Settings.IsValid.hasUsableRanges [RandomSource σ ℝ] (htotal : RandomSource.IsTotal σ)
    (hrange : RandomSource.StaysInRange σ) {s : Settings ℝ} (hvalid : s.IsValid) :
    HasUsableRanges σ s where
  derivations := htotal.word (not_not.1 hvalid.derivations)
  radialSegments := htotal.word (not_not.1 hvalid.radialSegments.1)
  range trait := htotal.scalar (not_not.1 (hvalid.range trait).2)
  leafShare _ :=
    htotal.scalar (div_nonneg (not_lt.1 hvalid.leafScaleBudget.2) (Nat.cast_nonneg _))
  leafBonus _ hbonus := by
    obtain ⟨draw, source, hdraw, rfl⟩ := hbonus
    exact htotal.scalar (hrange _ _ draw hdraw source).1

theorem isTotal_lowest : RandomSource.IsTotal Lowest where
  word h := by simp [RandomSource.word, h]
  scalar h := by simp [RandomSource.scalar, h]

theorem wordsStayInRange_lowest : RandomSource.WordsStayInRange Lowest := by
  intro low high draw h source
  obtain ⟨hle, hdraw⟩ := Option.ite_none_right_eq_some.1 h
  cases hdraw
  exact ⟨UInt32.le_refl low, hle⟩

theorem staysInRange_lowest : RandomSource.StaysInRange Lowest := by
  intro low high draw h source
  obtain ⟨hle, hdraw⟩ := Option.ite_none_right_eq_some.1 h
  cases hdraw
  exact ⟨le_rfl, hle⟩

/-! ## Trees that wither -/

/-- One step draws a branch between two points, if it is long enough. -/
theorem interpret_letter {turtle : Turtle α} (h : turtle.advance.HasLeft turtle.position) :
    interpret turtle ['A'] = .ok
      ⟨⟨#[turtle.position, turtle.advance.position], [], turtle.radius, turtle.advance.radius⟩,
        none⟩ := by
  have hrecord : (OpenBranch.start turtle).advance.record =
      ⟨turtle.advance.position, [turtle.position], [], turtle.radius, turtle.advance⟩ := by
    rw [OpenBranch.record_eq]
    exact if_pos h
  change Except.ok (Interpretation.mk (OpenBranch.start turtle).advance.close none) = _
  rw [OpenBranch.close, hrecord]
  rfl

namespace Settings

/-- An assembly fails if the first of its tubes does. -/
theorem throws_assemble {grid : TubeGrid} {leaf : Mesh α} {b : Branch α} {rest : List (Branch α)}
    {spline : Spline α} {cause : TubeError α} (hgrid : s.grid traits = .ok grid)
    (hleaf : s.leaf = .ok leaf) (hvisible : root.visible = b :: rest)
    (hspline : b.spline = .ok spline) (hmesh : (s.tube grid b spline.curve).mesh = .error cause)
    (source : σ) :
    (s.assemble traits root : Growing σ α (Model α S K)).Throws source (.tube cause) source := by
  have hbranch (m : Model α S K) :
      (s.addBranch traits grid m b).Throws source (.tube cause) source := by
    rw [addBranch, hspline, ofExcept_ok_bind, hmesh]
    exact throws_ofExcept_bind.2 ⟨rfl, rfl⟩
  rw [assemble, hgrid, hleaf, ofExcept_ok_bind, ofExcept_ok_bind, hvisible, List.foldlM_cons]
  exact throws_bind.2 (.inl (throws_bind.2 (.inl (hbranch _))))

/-- Settings for trees of a single branch whose radius changes its sign. -/
def withering : Settings α :=
  { (default : Settings α) with
    initiators := [['A']]
    derivations := ⟨0, 0⟩
    stepLength := ⟨1, 1⟩
    radius := ⟨1, 1⟩
    radiusDecay := ⟨-1, -1⟩ }

theorem regenerate_withering {grid : TubeGrid} {leaf : Mesh α}
    (htraits : (withering : Settings α).sampleTraits.Yields source traits rest)
    (hderivations : traits.derivations = 0) (hgrid : withering.grid traits = .ok grid)
    (hleaf : (withering : Settings α).leaf = .ok leaf)
    (hleft : (Turtle.start traits.turtle).advance.HasLeft 0)
    (hbegin : Tube.IsRadius traits.turtle.radius)
    (hend : ¬Tube.IsRadius (traits.turtle.radius * traits.turtle.radiusDecay)) :
    ((withering : Settings α).regenerate source : Outcome σ α S K).result =
      .error (.tube (.radius (traits.turtle.radius * traits.turtle.radiusDecay))) := by
  let b : Branch α := ⟨#[0, (Turtle.start traits.turtle).advance.position], [],
    traits.turtle.radius, traits.turtle.radius * traits.turtle.radiusDecay⟩
  have hinterpret : interpret (.start traits.turtle) ['A'] = .ok ⟨b, none⟩ := interpret_letter hleft
  have hvisible : b.visible = [b] := by
    rw [Branch.visible_eq]
    simp [b, Branch.lastFirst, Branch.lastFirstOf, Branch.IsDegenerate]
  obtain ⟨spline, hspline, -⟩ := Branch.exists_spline (b := b) (Nat.lt_irrefl 2)
  have hmesh : (withering.tube grid b spline.curve).mesh = .error (.radius b.radiusEnd) :=
    (if_neg (not_not.2 hbegin)).trans (if_pos hend)
  have hbuild := build_of_throws (S := S)
    (throws_assemble hgrid hleaf hvisible hspline hmesh rest)
  obtain ⟨rules, hrules⟩ : ∃ rules, (withering : Settings α).ruleSet = .ok rules := ⟨_, rfl⟩
  have hinitiator : traits.initiator = ['A'] :=
    List.mem_singleton.1 (hasDrawn_of_sampleTraits_yields htraits).initiator
  have hderive : (LSystem.mk ['A'] rules).derive (0 : UInt32).toNat rest = ⟨['A'], [], rest⟩ := rfl
  rw [regenerate_of_yields htraits]
  simp only [grow, hrules, hinitiator, hderivations, hderive, hinterpret, hbuild]
  rfl

theorem eq_of_isDraw_self {a b : Float} (hwidth : (a - a) / Keystream.topFraction = 0)
    (hsum : 0 + a = a) (h : IsDraw (RandomSource.scalar (σ := Keystream) a a) b) : b = a := by
  obtain ⟨draw, source, hdraw, rfl⟩ := h
  exact Keystream.eq_of_scalarIn_self hwidth hsum hdraw source

theorem isValid_withering : (withering : Settings ℝ).IsValid where
  initiators := nofun
  derivations := not_not.2 (UInt32.le_refl 0)
  radialSegments := by decide
  segmentCount := by decide
  range trait := by
    refine ⟨⟨rfl, rfl⟩, not_not.2 ?_⟩
    cases trait <;> simp [withering, default, range] <;> norm_num
  radius := not_lt.2 zero_le_one
  leafScaleBudget := ⟨rfl, not_lt.2 (Nat.cast_nonneg 12)⟩
  rules := ⟨_, rfl⟩

theorem isValid_withering_float : (withering : Settings Float).IsValid :=
  validate_eq_ok_iff.1 rfl

/-- The only branch of a withering tree ends with a negative radius. -/
theorem regenerate_withering_float [MeshArena S Float K] (source : Keystream) :
    ((withering : Settings Float).regenerate source : Outcome _ _ S K).result =
      .error (.tube (.radius (-1))) := by
  have hranges : (withering : Settings Float).HasNarrowRanges := by
    intro trait
    cases trait <;> decide
  have hshares : (withering : Settings Float).HasNarrowShares := by
    intro steps hlow hhigh
    obtain rfl : steps = 0 := UInt32.le_antisymm hhigh hlow
    decide
  obtain ⟨traits, rest, htraits⟩ :=
    exists_sampleTraits_yields_of_isValid isValid_withering_float hranges hshares source
  have hdrawn := hasDrawn_of_sampleTraits_yields htraits
  have hstep : traits.turtle.stepLength = 1 := eq_of_isDraw_self rfl rfl hdrawn.stepLength
  have hradius : traits.turtle.radius = 1 := eq_of_isDraw_self rfl rfl hdrawn.radius
  have hdecay : traits.turtle.radiusDecay = -1 := eq_of_isDraw_self rfl rfl hdrawn.radiusDecay
  have hderivations : traits.derivations = 0 := by
    obtain ⟨draw, between, hdraw, h⟩ := hdrawn.derivations
    obtain ⟨hlow, hhigh⟩ := Keystream.mem_of_wordIn hdraw between
    exact h ▸ UInt32.le_antisymm hhigh hlow
  have hradial := hdrawn.radialSegments_ne wordsStayInRange_keystream isValid_withering_float
  obtain ⟨grid, hgrid⟩ := exists_grid isValid_withering_float.segmentCount hradial
  have hleft : (Turtle.start traits.turtle).advance.HasLeft 0 := by
    change Scalar.tolerance < (((0 : Vec3 Float) + traits.turtle.stepLength •
      (1 : Quaternion Float).rotate .yAxis) - 0).norm
    rw [hstep]
    decide +kernel
  have hresult := regenerate_withering (S := S) htraits hderivations hgrid rfl hleft
    (by rw [hradius]; decide) (by rw [hradius, hdecay]; decide)
  rw [hradius, hdecay] at hresult
  exact hresult

end Settings

/-! ## One tree after the other -/

namespace Generator

theorem result_regenerate (g : Generator σ α) :
    (g.regenerate (S := S)).result = (g.settings.regenerate g.source : Outcome σ α S K).result :=
  rfl

theorem settings_iterate_regenerate (g : Generator σ α) (n : Nat) :
    ((fun g => (g.regenerate (S := S)).source)^[n] g).settings = g.settings := by
  induction n generalizing g with
  | zero => rfl
  | succ n ih => exact ih (g.regenerate (S := S)).source

/-- Trees that are grown one after the other from valid settings have no errors but those of a
symbol without a meaning, of a tube with a radius that cannot be drawn or with too many vertices,
and of a curve that stalls. Apart from that a draw may find nothing in its range, but only if a
range of the settings has nothing to draw. -/
theorem regenerate_iterate_error [PositiveOne α] [LawfulParameters α]
    (hwords : RandomSource.WordsStayInRange σ) (g : Generator σ α) (n : Nat) {e : GrowthError α}
    (h : (((fun g => (g.regenerate (S := S)).source)^[n] g).regenerate (S := S)).result =
      .error e) :
    e.IsOfTree ∨ e = .emptyDraw ∧ ¬g.settings.HasUsableRanges σ := by
  rw [result_regenerate, settings_iterate_regenerate] at h
  exact Settings.isOfTree_or_of_regenerate_eq_error hwords (Settings.validate_eq_ok_iff.1 g.valid) h

/-- A tree whose radius turns negative, and streams and settings whose draws all find something. -/
theorem regenerate_iterate_error_withering :
    let g : Generator Keystream Float :=
      ⟨.withering, Settings.validate_eq_ok_iff.2 Settings.isValid_withering_float, .ofSeed 42⟩
    let g' : Generator Lowest ℝ :=
      ⟨.withering, Settings.validate_eq_ok_iff.2 Settings.isValid_withering, ⟨⟩⟩
    (RandomSource.WordsStayInRange Keystream ∧
      ((fun g => g.regenerate.source)^[2] g).regenerate.result = .error (.tube (.radius (-1))) ∧
      GrowthError.IsOfTree (.tube (.radius (-1 : Float)))) ∧
    (RandomSource.WordsStayInRange Lowest ∧ g'.settings.HasUsableRanges Lowest ∧
      ∀ e, ((fun g => g.regenerate.source)^[2] g').regenerate.result = .error e → e.IsOfTree) := by
  intro g g'
  have hresult : ((fun g => g.regenerate.source)^[2] g).regenerate.result =
      .error (.tube (.radius (-1))) := by
    rw [result_regenerate, settings_iterate_regenerate]
    exact Settings.regenerate_withering_float _
  have herror := regenerate_iterate_error wordsStayInRange_keystream g 2 hresult
  have husable : g'.settings.HasUsableRanges Lowest :=
    Settings.isValid_withering.hasUsableRanges isTotal_lowest staysInRange_lowest
  refine ⟨⟨wordsStayInRange_keystream, hresult, herror.resolve_right nofun⟩,
    wordsStayInRange_lowest, husable, fun e he => ?_⟩
  have herror' := regenerate_iterate_error wordsStayInRange_lowest g' 2 he
  exact herror'.resolve_right fun hempty => hempty.2 husable

end Generator

end ProceduralTree
