import ProceduralTree.Curve.Spline

/-!
# Frames of a curve

At each parameter a curve has a tangent, taken as the difference of two samples close by, and two
unit vectors that span the plane across it. Frames of neighbouring parameters are independent of
each other, so the binormal may change its sign along the way.
-/

namespace ProceduralTree

structure Frame (α : Type) where
  /-- The difference of two samples, not normalized. -/
  tangent : Vec3 α
  binormal : Vec3 α
  normal : Vec3 α

namespace Frame

variable {α : Type} [Scalar α]

/-- A coordinate axis away from the tangent: Y if X is the tangent's greatest component, Z if Y is,
X if Z is. -/
def crossAxis (tangent : Vec3 α) : Vec3 α :=
  let x := Scalar.abs tangent.x
  let y := Scalar.abs tangent.y
  let z := Scalar.abs tangent.z
  if y ≤ x ∧ z ≤ x then .yAxis else if z ≤ y then .zAxis else .xAxis

/-- The direction of the part of `crossAxis` that is orthogonal to the tangent. -/
def axisBinormal (tangent : Vec3 α) : Vec3 α :=
  let axis := crossAxis tangent
  (axis - (tangent.dot axis / tangent.normSq) • tangent).normalize

/-- The frame with the given tangent and, where `across` does not vanish, with the direction of
`across` as its binormal. -/
def ofTangent (tangent across : Vec3 α) : Frame α :=
  let binormal :=
    if across.norm < Scalar.tolerance then axisBinormal tangent else across.normalize
  { tangent, binormal, normal := (binormal.cross tangent).normalize }

/-- The frame of a curve at `x`. The samples lie on both sides of `x`, within the domain; the
binormal is orthogonal to the tangent and to the samples' sum. -/
def ofCurve (curve : Curve α) (x : α) : Except (CurveError α) (Frame α) := do
  let p ← curve (Scalar.greatest (x - sampleStep) 0)
  let q ← curve (Scalar.least (x + sampleStep) 1)
  let tangent := q - p
  if tangent.norm < Scalar.tolerance then throw .noDirection
  return ofTangent tangent (tangent.cross (p + q))

end Frame

end ProceduralTree
