import ProceduralTree.Curve.Basic

/-!
# Circles
-/

namespace ProceduralTree

/-- A circle in the XY plane around the origin, of a radius that does not count as zero. -/
structure Circle (α : Type) [Scalar α] where
  radius : α
  not_small : ¬radius < Scalar.tolerance

namespace Circle

variable {α : Type} [Scalar α]

def ofRadius (radius : α) : Except (CurveError α) (Circle α) :=
  if h : radius < Scalar.tolerance then .error .circleRadius else .ok ⟨radius, h⟩

/-- The point after the fraction `x` of a full turn. -/
def point (c : Circle α) (x : α) : Vec3 α :=
  let angle := Scalar.turn * x
  ⟨c.radius * Scalar.cos angle, c.radius * Scalar.sin angle, 0⟩

def curve (c : Circle α) : Curve α := .ofPoint c.point

end Circle

end ProceduralTree
