import ProceduralTree.Curve.Spline
import ProceduralTree.Growth.Event
import ProceduralTree.Growth.Sampling
import ProceduralTree.Model.Basic

/-!
# Assembly of a tree

A skeleton becomes a model branch by branch, the last fork before the others. Each branch that can
carry a curve becomes a tube along a spline through its points, with a leaf at its tip; the others
are left out, but not their forks. The tree is then moved so that the heights of its skeleton are
balanced around zero. Any arena may keep the meshes.

## Main definitions

* `Branch.visible` — the branches that make parts, in the order of their parts.
* `Settings.tube`, `Settings.leafPlacement` — the tube of a branch, and where its leaf goes.
* `Settings.assemble` — the whole model.
-/

namespace ProceduralTree

variable {σ α : Type} [Scalar α]

/-- The least and the greatest of some heights. -/
abbrev Extent (α : Type) := Interval α

namespace Extent

/-- Takes in one more height; one that is no number is passed over. -/
def widen (e : Option (Extent α)) (y : α) : Option (Extent α) :=
  if Scalar.IsNumber y then
    match e with
    | none => some ⟨y, y⟩
    | some e => some ⟨Scalar.least e.low y, Scalar.greatest e.high y⟩
  else e

/-- The placement that balances the extent around zero. -/
def centered (e : Extent α) : Placement α :=
  { Placement.identity with offset := ⟨0, -(e.low + e.high) / (2 : Nat), 0⟩ }

end Extent

namespace Branch

/-- The branches that carry a curve, in the order in which they are assembled. -/
def visible (root : Branch α) : List (Branch α) :=
  root.reversePreorder.filter fun b => ¬b.IsDegenerate

/-- The number of branches that carry no curve. -/
def degenerateCount (root : Branch α) : Nat :=
  root.reversePreorder.countP fun b => b.IsDegenerate

/-- The heights between which the branches lie that carry a curve. -/
def extent? (root : Branch α) : Option (Extent α) :=
  root.visible.foldl (fun e b => b.points.foldl (fun e p => Extent.widen e p.y) e) none

def spline (b : Branch α) : Except (CurveError α) (Spline α) := Spline.ofPoints b.points

end Branch

/-- A leaf is at least this many times as large as the tip of its branch is thick. -/
def leastLeafScale : α := Scalar.ratio 3 2

/-- The size of a leaf on a tip of the given radius. -/
def leafScale (radius bonus : α) : α :=
  let least := radius * leastLeafScale
  least + least * bonus

namespace Settings

open Growing RandomSource

def tube (s : Settings α) (grid : TubeGrid) (b : Branch α) (curve : Curve α) : Tube α where
  curve := curve
  grid := grid
  radiusBegin := b.radiusBegin
  radiusEnd := b.radiusEnd
  color := s.barkColor

/-- The grid of all tubes of a tree. -/
def grid (s : Settings α) (traits : Traits α) : Except (TubeError α) TubeGrid :=
  TubeGrid.ofCounts s.segmentCount traits.radialSegments true

/-- The mesh of all leaves of a tree. -/
def leaf (s : Settings α) : Except IcosahedronError (Mesh α) := Icosahedron.mesh 1 s.foliageColor

variable [RandomSource σ α] {S K : Type} [MeshArena S α K]

/-- Draws the size and the turn of the leaf at the tip of a branch. -/
def leafPlacement (traits : Traits α) (b : Branch α) (curve : Curve α) :
    Growing σ α (Placement α) := do
  let bonus ← drawIn (scalar 0 traits.leafBonus)
  let x ← draw angle
  let y ← draw angle
  let z ← draw angle
  let tip ← ofExcept .curve (curve 1)
  return { offset := tip, rotation := ⟨x, y, z⟩, scale := leafScale b.radiusEnd bonus }

/-- Adds the tube of a branch and the leaf at its tip. -/
def addBranch (s : Settings α) (traits : Traits α) (grid : TubeGrid) (m : Model α S K)
    (b : Branch α) : Growing σ α (Model α S K) := do
  let spline ← ofExcept .curve b.spline
  let mesh ← ofExcept .tube (s.tube grid b spline.curve).mesh
  let placement ← leafPlacement traits b spline.curve
  return (m.addBranch mesh).addLeaf placement

/-- The model of a skeleton, in its place. -/
def assemble (s : Settings α) (traits : Traits α) (root : Branch α) :
    Growing σ α (Model α S K) := do
  let grid ← ofExcept .tube (s.grid traits)
  let leaf ← ofExcept .leaf s.leaf
  let m ← root.visible.foldlM (s.addBranch traits grid) (.ofLeaf leaf)
  return match root.extent? with
    | none => m
    | some e => m.setPlacement e.centered

end Settings

/-- What the assembly of a skeleton into a model reports. -/
def Model.events {S K : Type} [MeshArena S α K] (m : Model α S K) (traits : Traits α)
    (root : Branch α) : List Event :=
  (if root.degenerateCount = 0 then [] else [.skippedDegenerate root.degenerateCount])
    ++ [.grown traits.initiator traits.derivations.toNat (MeshArena.size m.store) m.parts.size]

end ProceduralTree
