import ProceduralTree.Decimal.Shortest
import ProceduralTree.Space.Vector

/-!
# Curves

A curve is a function from the unit interval to space. It answers with an error outside of its
domain, and any function of that type may be swept into a tube.
-/

namespace ProceduralTree

/-- Why a curve, a point of it or a frame of it does not exist. -/
inductive CurveError (α : Type) where
  /-- The parameter lies outside the unit interval. -/
  | outOfDomain (x : α)
  | circleRadius
  /-- A spline through fewer than two points, and how many they were. -/
  | tooFewPoints (count : Nat)
  /-- Two samples that should show the direction of the curve coincide. -/
  | noDirection

def CurveError.message : CurveError Float → String
  | .outOfDomain x => s!"parameter x = {Decimal.text x} is out of range [0, 1]"
  | .circleRadius => "degenerate geometry: circle radius must be positive"
  | .tooFewPoints count =>
    s!"degenerate geometry: catmull-rom curve needs at least 2 points, got {count}"
  | .noDirection => "zero-length vector"

abbrev Curve (α : Type) := α → Except (CurveError α) (Vec3 α)

/-- The curve that takes `x` in the unit interval to `point x`. -/
def Curve.ofPoint {α : Type} [Scalar α] (point : α → Vec3 α) : Curve α := fun x =>
  if 0 ≤ x ∧ x ≤ 1 then .ok (point x) else .error (.outOfDomain x)

end ProceduralTree
