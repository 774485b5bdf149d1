import ProceduralTree.Curve.Frame
import ProceduralTree.Mesh.Basic

/-!
# Tubes

A tube sweeps a circle along a curve. Its vertices are rings of equally many vertices, one ring per
sample of the curve, and behind the rings the centers of the two caps. Its strips are one per pair
of adjacent rings, closed by repeating its first two indices, and one per cap.

## Main definitions

* `TubeGrid` — how finely a tube is sampled.
* `TubeGrid.strips` — the index buffer, which depends on the grid alone.
* `Tube.mesh` — the mesh of a tube.
-/

namespace ProceduralTree

/-- Why there is no mesh of a tube. -/
inductive TubeError (α : Type) where
  | noSegments
  | noRadialSegments
  | radius (r : α)
  /-- More vertices than there are indices. -/
  | vertexCount (count : Nat)
  | curve (cause : CurveError α)

def TubeError.message : TubeError Float → String
  | .noSegments => "invalid tessellation parameters: tube needs at least 1 segment"
  | .noRadialSegments => "invalid tessellation parameters: tube needs at least 1 radial segment"
  | .radius r =>
    "invalid tessellation parameters: tube radius must be finite and non-negative, got "
      ++ Decimal.text r
  | .vertexCount count =>
    s!"invalid tessellation parameters: tube would need {count} vertices"
  | .curve cause => cause.message

/-- How finely a tube is sampled. -/
structure TubeGrid where
  /-- The number of segments along the curve, one less than the number of rings. -/
  segments : UInt32
  /-- The number of vertices of a ring. -/
  radial : UInt32
  /-- Whether the ends are closed by discs. -/
  caps : Bool
  segments_ne : segments ≠ 0
  radial_ne : radial ≠ 0

instance : Inhabited TubeGrid := ⟨⟨15, 8, true, by decide, by decide⟩⟩

namespace TubeGrid

def ofCounts {α : Type} (segments radial : UInt32) (caps : Bool) :
    Except (TubeError α) TubeGrid :=
  if hs : segments = 0 then .error .noSegments
  else if hr : radial = 0 then .error .noRadialSegments
  else .ok ⟨segments, radial, caps, hs, hr⟩

/-- The number of vertices of the rings and the cap centers. -/
def vertexCount (g : TubeGrid) : UInt64 := (g.segments.toUInt64 + 1) * g.radial.toUInt64 + 2

/-- The words below `n`. -/
def words (n : UInt32) : List UInt32 := (List.range n.toNat).map UInt32.ofNat

/-- The strip between ring `i` and the next ring. -/
def sideStrip (g : TubeGrid) (i : UInt32) : List UInt32 :=
  let ring := i * g.radial
  let next := (i + 1) * g.radial
  (words g.radial).flatMap (fun j => [ring + j, next + j]) ++ [ring, next]

/-- The disc around `center` over the first ring. -/
def startCap (g : TubeGrid) (center : UInt32) : List UInt32 :=
  (words g.radial).flatMap (fun j => [center, j]) ++ [0]

/-- The disc around `center` over the last ring, wound the other way round. -/
def stopCap (g : TubeGrid) (center : UInt32) : List UInt32 :=
  let ring := g.segments * g.radial
  (words g.radial).flatMap (fun j => [ring + j, center]) ++ [ring]

/-- The number of the first vertex behind the rings. -/
def firstCenter (g : TubeGrid) : UInt32 := (g.segments + 1) * g.radial

def sideStrips (g : TubeGrid) : List (List UInt32) := (words g.segments).map g.sideStrip

def capStrips (g : TubeGrid) : List (List UInt32) :=
  if g.caps then [g.startCap g.firstCenter, g.stopCap (g.firstCenter + 1)] else []

/-- The strips of the sides, then those of the caps. -/
def strips (g : TubeGrid) : List (List UInt32) := g.sideStrips ++ g.capStrips

/-- The strips with a restart between any two. -/
def indices (g : TubeGrid) : Array UInt32 := ([restartIndex].intercalate g.strips).toArray

end TubeGrid

/-- A circle of changing radius to be swept along a curve. -/
structure Tube (α : Type) where
  curve : Curve α
  grid : TubeGrid
  radiusBegin : α
  radiusEnd : α
  color : Rgb

namespace Tube

variable {α : Type} [Scalar α]

/-- Whether a radius can be drawn. -/
def IsRadius (r : α) : Prop := Scalar.isFinite r ∧ ¬r < 0

instance (r : α) : Decidable (IsRadius r) := inferInstanceAs (Decidable (_ ∧ _))

/-- The parameter of ring `i`. -/
def parameter (t : Tube α) (i : Nat) : α := i / t.grid.segments.toNat

/-- The radius at a parameter, which goes evenly from one end of the tube to the other. -/
def radiusAt (t : Tube α) (x : α) : α := t.radiusBegin + (t.radiusEnd - t.radiusBegin) * x

/-- The angle between neighbours on a ring. -/
def angleStep (g : TubeGrid) : α := Scalar.turn / g.radial.toNat

/-- The point at an angle on a circle in the plane of a frame. -/
def circlePoint (center : Vec3 α) (frame : Frame α) (radius angle : α) : Vec3 α :=
  center + (Scalar.cos angle * radius) • frame.binormal
    + (Scalar.sin angle * radius) • frame.normal

/-- The vertices of ring `i`. -/
def ring (t : Tube α) (i : Nat) : Except (CurveError α) (Array (Vec3 α)) := do
  let x := t.parameter i
  let center ← t.curve x
  let frame ← Frame.ofCurve t.curve x
  return .ofFn fun j : Fin t.grid.radial.toNat =>
    circlePoint center frame (t.radiusAt x) (angleStep t.grid * j.val)

/-- Adds `count` rings, from ring `i` on, to the vertices before them. -/
def ringsOnto (t : Tube α) (vertices : Array (Vec3 α)) (i : Nat) :
    Nat → Except (CurveError α) (Array (Vec3 α))
  | 0 => .ok vertices
  | count + 1 => do
    let ring ← t.ring i
    t.ringsOnto (vertices ++ ring) (i + 1) count

def rings (t : Tube α) : Except (CurveError α) (Array (Vec3 α)) :=
  t.ringsOnto #[] 0 (t.grid.segments.toNat + 1)

/-- The centers of the caps. -/
def centers (t : Tube α) : Except (CurveError α) (Array (Vec3 α)) :=
  if t.grid.caps then do
    let first ← t.curve 0
    let last ← t.curve 1
    return #[first, last]
  else return #[]

def positions (t : Tube α) : Except (CurveError α) (Array (Vec3 α)) := do
  let rings ← t.rings
  let centers ← t.centers
  return rings ++ centers

/-- The mesh of a tube, if its radii can be drawn, there are indices for all vertices, and the curve
has a frame at every ring. -/
def mesh (t : Tube α) : Except (TubeError α) (Mesh α) :=
  if ¬IsRadius t.radiusBegin then .error (.radius t.radiusBegin)
  else if ¬IsRadius t.radiusEnd then .error (.radius t.radiusEnd)
  else if restartIndex.toUInt64 ≤ t.grid.vertexCount then
    .error (.vertexCount t.grid.vertexCount.toNat)
  else
    match t.positions with
    | .error cause => .error (.curve cause)
    | .ok positions => .ok (.ofShape .triangleStrip positions t.grid.indices t.color)

end Tube

end ProceduralTree
