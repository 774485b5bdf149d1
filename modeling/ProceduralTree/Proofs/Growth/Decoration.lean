import Mathlib.Data.List.Forall2
import ProceduralTree.Proofs.Growth.Assembly

/-!
# Growth from different streams

The stream decides how the leaves of a model are turned and how large they are, and nothing else.
The same skeleton assembled from two streams either fails in the same way twice, or it makes two
models of the same meshes in the same places.

## Main definitions

* `Agree` — two results that are the same error or related values.
* `Growing.Alike` — computations that agree on their results from whatever streams.
* `Model.SameButLeaves` — models that differ in the turn and the size of their leaves alone.

## Main statements

* `Growing.Alike.bind`, `Growing.alike_foldlM` — agreement of steps one after the other.
* `Settings.addBranch_alike` — one branch, from two streams.
* `Settings.build_agree` — the whole model, from two streams.
-/

namespace ProceduralTree

/-- The same error twice, or related values. -/
inductive Agree {ε β γ : Type} (R : β → γ → Prop) : Except ε β → Except ε γ → Prop
  | error (e : ε) : Agree R (.error e) (.error e)
  | ok {b : β} {c : γ} (h : R b c) : Agree R (.ok b) (.ok c)

namespace Growing

variable {σ α β γ β' γ' : Type} {R : β → γ → Prop} {Q : β' → γ' → Prop}

/-- From any two streams, the computations agree on their results. -/
def Alike (R : β → γ → Prop) (x : Growing σ α β) (y : Growing σ α γ) : Prop :=
  ∀ source source', Agree R (x.outcome source).1 (y.outcome source').1

theorem alike_pure {b : β} {c : γ} (h : R b c) :
    Alike R (pure b : Growing σ α β) (pure c) := by
  intro source source'
  exact .ok h

theorem alike_draw {R : β → β → Prop} {d : Draw σ β}
    (h : ∀ source source', R (d source).1 (d source').1) :
    Alike R (draw d : Growing σ α β) (draw d) := by
  intro source source'
  exact .ok (h source source')

theorem alike_ofExcept {ε : Type} (cause : ε → GrowthError α) (r : Except ε β) :
    Alike (σ := σ) Eq (ofExcept cause r) (ofExcept cause r) := by
  intro source source'
  cases r with
  | error e => exact .error (cause e)
  | ok b => exact .ok rfl

theorem Alike.bind {x : Growing σ α β} {y : Growing σ α γ} {f : β → Growing σ α β'}
    {g : γ → Growing σ α γ'} (h : Alike R x y) (hfg : ∀ b c, R b c → Alike Q (f b) (g c)) :
    Alike Q (x >>= f) (y >>= g) := by
  intro source source'
  rw [outcome_bind, outcome_bind]
  have hxy := h source source'
  rcases hx : x.outcome source with ⟨r, rest⟩
  rcases hy : y.outcome source' with ⟨r', rest'⟩
  rw [hx, hy] at hxy
  cases hxy with
  | error e => exact .error e
  | ok hbc => exact hfg _ _ hbc rest rest'

/-- A loop whose steps keep a relation from any two streams keeps it altogether. -/
theorem alike_foldlM {ι : Type} {R : β → β → Prop} {f : β → ι → Growing σ α β}
    (step : ∀ b c i, R b c → Alike R (f b i) (f c i)) (items : List ι) {b c : β} (h : R b c) :
    Alike R (items.foldlM f b) (items.foldlM f c) := by
  induction items generalizing b c with
  | nil => exact alike_pure h
  | cons i items ih =>
    rw [List.foldlM_cons, List.foldlM_cons]
    apply (step b c i h).bind
    intro b' c' h'
    exact ih h'

end Growing

variable {σ α S K : Type}

/-- Where two leaves may go: to the same place, in the same size if need be. -/
structure Placement.SameButTurn (sized : Prop) (p q : Placement α) : Prop where
  offset : p.offset = q.offset
  scale : sized → p.scale = q.scale

/-- The same part, unless it is a leaf that is turned or sized otherwise. -/
structure Part.SameButLeaf (sized : Prop) (p q : Part α K) : Prop where
  kind : p.kind = q.kind
  mesh : p.mesh = q.mesh
  placement : p.placement.SameButTurn sized q.placement
  branch : p.kind = .branch → p = q

/-- Models of the same meshes whose parts stand in the same places; only the leaves may be turned
otherwise and, unless `sized`, be of other sizes. -/
structure Model.SameButLeaves (sized : Prop) (m m' : Model α S K) : Prop where
  store : m.store = m'.store
  parts : List.Forall₂ (Part.SameButLeaf sized) m.parts.toList m'.parts.toList
  placement : m.placement = m'.placement
  leafMesh : m.leafMesh = m'.leafMesh

namespace Model.SameButLeaves

variable {sized : Prop} {m m' : Model α S K}

theorem rfl_ofLeaf [Scalar α] [MeshArena S α K] (leaf : Mesh α) :
    (ofLeaf leaf : Model α S K).SameButLeaves sized (ofLeaf leaf) := ⟨rfl, .nil, rfl, rfl⟩

theorem setPlacement (h : m.SameButLeaves sized m') (placement : Placement α) :
    (m.setPlacement placement).SameButLeaves sized (m'.setPlacement placement) :=
  ⟨h.store, h.parts, rfl, h.leafMesh⟩

/-- A tube with a leaf keeps models the same but for the leaves. -/
theorem addLimb [Scalar α] [MeshArena S α K] (h : m.SameButLeaves sized m') (bark : Mesh α)
    {p q : Placement α} (hpq : p.SameButTurn sized q) :
    ((m.addBranch bark).addLeaf p).SameButLeaves sized ((m'.addBranch bark).addLeaf q) := by
  obtain ⟨store, parts, placement, leafMesh⟩ := m
  obtain ⟨store', parts', placement', leafMesh'⟩ := m'
  obtain ⟨rfl, hparts, rfl, rfl⟩ := h
  refine ⟨rfl, ?_, rfl, rfl⟩
  have hbranch (id : K) :
      Part.SameButLeaf sized (⟨.branch, id, .identity⟩ : Part α K) ⟨.branch, id, .identity⟩ :=
    ⟨rfl, rfl, ⟨rfl, fun _ => rfl⟩, fun _ => rfl⟩
  have hleaf : Part.SameButLeaf sized (⟨.leaf, leafMesh, p⟩ : Part α K) ⟨.leaf, leafMesh, q⟩ :=
    ⟨rfl, rfl, hpq, nofun⟩
  simpa [addBranch, addLeaf, List.append_assoc] using
    List.rel_append hparts (.cons (hbranch _) (.cons hleaf .nil))

end Model.SameButLeaves

namespace Settings

open Growing

variable [Scalar α] [RandomSource σ α] [MeshArena S α K] {s : Settings α} {traits : Traits α}
  {bonus : Draw σ α}

/-- Where the leaf of a branch goes from two streams. -/
theorem leafPlacement_alike {sized : Prop}
    (hbonus : RandomSource.scalar 0 traits.leafBonus = some bonus)
    (hsized : sized → ∀ source source', (bonus source).1 = (bonus source').1) (b : Branch α)
    (curve : Curve α) :
    Alike (Placement.SameButTurn sized) (leafPlacement traits b curve : Growing σ α _)
      (leafPlacement traits b curve) := by
  unfold leafPlacement
  rw [hbonus]
  apply (alike_draw (R := fun x y => sized → x = y) fun source source' h =>
    hsized h source source').bind
  intro x y hxy
  -- The three angles may be any.
  iterate 3
    apply (alike_draw (R := fun _ _ => True) fun _ _ => trivial).bind
    rintro - - -
  apply (alike_ofExcept .curve (curve 1)).bind
  rintro tip _ rfl
  apply alike_pure
  exact ⟨rfl, fun h => by rw [hxy h]⟩

/-- One branch from two streams, behind models that are the same but for the leaves. -/
theorem addBranch_alike {sized : Prop} {grid : TubeGrid}
    (hbonus : RandomSource.scalar 0 traits.leafBonus = some bonus)
    (hsized : sized → ∀ source source', (bonus source).1 = (bonus source').1) (m m' : Model α S K)
    (b : Branch α) (h : m.SameButLeaves sized m') :
    Alike (Model.SameButLeaves sized) (s.addBranch traits grid m b : Growing σ α _)
      (s.addBranch traits grid m' b) := by
  unfold addBranch
  apply (alike_ofExcept .curve b.spline).bind
  rintro spline _ rfl
  apply (alike_ofExcept .tube (s.tube grid b spline.curve).mesh).bind
  rintro mesh _ rfl
  apply (leafPlacement_alike hbonus hsized b spline.curve).bind
  intro p q hpq
  exact alike_pure (h.addLimb mesh hpq)

theorem assemble_alike {sized : Prop}
    (hbonus : RandomSource.scalar 0 traits.leafBonus = some bonus)
    (hsized : sized → ∀ source source', (bonus source).1 = (bonus source').1) (root : Branch α) :
    Alike (Model.SameButLeaves sized) (s.assemble traits root : Growing σ α (Model α S K))
      (s.assemble traits root) := by
  unfold assemble
  apply (alike_ofExcept .tube (s.grid traits)).bind
  rintro grid _ rfl
  apply (alike_ofExcept .leaf s.leaf).bind
  rintro leaf _ rfl
  apply (alike_foldlM (addBranch_alike hbonus hsized) root.visible (.rfl_ofLeaf leaf)).bind
  intro m m' h
  apply alike_pure
  cases root.extent? with
  | none => exact h
  | some e => exact h.setPlacement e.centered

theorem result_build (s : Settings α) (traits : Traits α) (root : Branch α) (source : σ) :
    (s.build traits root source : Outcome σ α S K).result =
      ((s.assemble traits root).outcome source).1 := by
  unfold build outcome
  split <;> simp_all

/-- If the size of a leaf can be drawn at all, the skeleton decides alone whether it has a model,
or why not, and which one but for the turn and the size of the leaves. If there is no bonus, it also
decides the size. -/
theorem build_agree [LawfulRandomSource σ]
    (hbonus : RandomSource.scalar 0 traits.leafBonus = some bonus) (root : Branch α)
    (source source' : σ) :
    Agree (Model.SameButLeaves (traits.leafBonus ≤ 0))
      (s.build traits root source : Outcome σ α S K).result
      (s.build traits root source').result := by
  have hsized (h : traits.leafBonus ≤ 0) (source source' : σ) :
      (bonus source).1 = (bonus source').1 := by
    rw [LawfulRandomSource.scalar_nonpos h hbonus, LawfulRandomSource.scalar_nonpos h hbonus]
  rw [result_build, result_build]
  exact assemble_alike hbonus hsized root source source'

end Settings

/-! ## Two leaves on a twig -/

/-- A stream that draws at given fractions of its ranges, and at the low ends after them. -/
structure Fractions where
  fractions : List ℝ

namespace Fractions

def next : Fractions → ℝ × Fractions
  | ⟨[]⟩ => (0, ⟨[]⟩)
  | ⟨f :: fractions⟩ => (f, ⟨fractions⟩)

noncomputable instance : RandomSource Fractions ℝ where
  alternative _ pos source := (⟨0, pos⟩, source)
  initiator _ pos source := (⟨0, pos⟩, source)
  word low high := if low ≤ high then some fun source => (low, source) else none
  scalar low high :=
    if low ≤ high then
      some fun source => (source.next.1 * (high - low) + low, source.next.2)
    else none
  angle source := (source.next.1 * Scalar.turn, source.next.2)

instance : LawfulRandomSource Fractions where
  scalar_nonpos := by
    intro high draw hhigh h source
    obtain ⟨hlow, hdraw⟩ := Option.ite_none_right_eq_some.1 h
    obtain rfl := le_antisymm hhigh hlow
    cases hdraw
    simp

end Fractions

namespace Bush

theorem visible_twig (tip : Vec3 ℝ) : (twig tip).visible = [twig tip] := by
  rw [Branch.visible_eq]
  simp [twig, Branch.IsDegenerate, Branch.lastFirst, Branch.lastFirstOf]

/-- A skeleton whose curves are twigs of unit length has a model. -/
theorem exists_build {σ : Type} [RandomSource σ ℝ] {draw : Draw σ ℝ} {root : Branch ℝ}
    (hbonus : RandomSource.scalar 0 traits.leafBonus = some draw)
    (htwigs : ∀ b ∈ root.visible, ∃ tip, (tip - 0).norm = 1 ∧ b = twig tip) (source : σ) :
    ∃ m, ((default : Settings ℝ).build traits root source).result = .ok m := by
  let grid : TubeGrid := ⟨15, 3, true, by decide, by decide⟩
  have hgrid : (default : Settings ℝ).grid traits = .ok grid := rfl
  have hleaf : ∃ leaf, (default : Settings ℝ).leaf = .ok leaf :=
    ⟨_, if_pos ⟨rfl, not_le.2 zero_lt_one⟩⟩
  obtain ⟨leaf, hleaf⟩ := hleaf
  refine Settings.exists_build_eq_ok hgrid hleaf hbonus (fun b hb => ?_) source
  obtain ⟨tip, htip, rfl⟩ := htwigs b hb
  exact exists_tube htip (by decide)

theorem exists_build_twig (source : Fractions) :
    ∃ m, ((default : Settings ℝ).build traits (twig .xAxis) source).result = .ok m := by
  refine exists_build (if_pos le_rfl) (fun b hb => ?_) source
  rw [visible_twig, List.mem_singleton] at hb
  exact ⟨.xAxis, by simp, hb⟩

/-- A twig with a leaf that is not turned, and the same twig with one that is. -/
theorem exists_models_same_but_leaves : ∃ m m',
    ((default : Settings ℝ).build traits (twig .xAxis) (⟨[]⟩ : Fractions)).result = .ok m ∧
    ((default : Settings ℝ).build traits (twig .xAxis)
      (⟨[0, Scalar.ratio 1 2]⟩ : Fractions)).result = .ok m' ∧
    m.SameButLeaves (traits.leafBonus ≤ 0) m' ∧ traits.leafBonus ≤ 0 := by
  obtain ⟨m, hm⟩ := exists_build_twig ⟨[]⟩
  obtain ⟨m', hm'⟩ := exists_build_twig ⟨[0, Scalar.ratio 1 2]⟩
  have hbonus : ∃ bonus : Draw Fractions ℝ, RandomSource.scalar 0 traits.leafBonus = some bonus :=
    ⟨_, if_pos le_rfl⟩
  obtain ⟨bonus, hbonus⟩ := hbonus
  have hagree := Settings.build_agree (s := default) hbonus (twig .xAxis) ⟨[]⟩
    ⟨[0, Scalar.ratio 1 2]⟩
  rw [hm, hm'] at hagree
  cases hagree with
  | ok h => exact ⟨m, m', hm, hm', h, le_rfl⟩

end Bush

end ProceduralTree
