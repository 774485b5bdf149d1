import ProceduralTree.Curve.Basic

/-!
# Splines

A Catmull-Rom spline passes through all of its control points, which divide the unit interval
evenly. Between two of them it is a cubic that also depends on the point before and the point after;
at either end of the list the missing neighbour is the reflection of the second point in the first.

## Main definitions

* `Span` — four consecutive control points, and the cubic between the middle two.
* `Span.knots` — the parameter distances of the points of a span, the fourth roots of the
  distances in space; a distance too small to divide by is replaced.
* `Spline` — a spline through at least two points.
-/

namespace ProceduralTree

/-- Four consecutive control points. -/
structure Span (α : Type) where
  before : Vec3 α
  start : Vec3 α
  stop : Vec3 α
  after : Vec3 α

/-- The parameter distances between the points of a span. -/
structure Knots (α : Type) where
  first : α
  middle : α
  last : α

/-- A cubic by its coefficients, constant first. -/
structure CubicArc (α : Type) where
  c0 : Vec3 α
  c1 : Vec3 α
  c2 : Vec3 α
  c3 : Vec3 α

variable {α : Type} [Scalar α]

/-- Parameter distances below this are replaced; frames take their samples this far apart. -/
@[inline] def sampleStep : α := Scalar.ratio 1 1000

def CubicArc.eval (c : CubicArc α) (t : α) : Vec3 α :=
  let t2 := t * t
  let t3 := t2 * t
  c.c0 + t • c.c1 + t2 • c.c2 + t3 • c.c3

/-- The cubic with the given end points and end tangents. -/
def CubicArc.hermite (start stop startTangent stopTangent : Vec3 α) : CubicArc α where
  c0 := start
  c1 := startTangent
  c2 := (-(3 : Nat) : α) • start + ((3 : Nat) : α) • stop - ((2 : Nat) : α) • startTangent
    - stopTangent
  c3 := ((2 : Nat) : α) • start - ((2 : Nat) : α) • stop + startTangent + stopTangent

/-- Uses the parameter distance `d`, or `spare` if `d` is too small to divide by. -/
def Knots.orElse (d spare : α) : α := if d < sampleStep then spare else d

namespace Span

def knots (s : Span α) : Knots α :=
  let first := Knots.orElse (Scalar.fourthRoot (s.start - s.before).norm) 1
  let middle := Knots.orElse (Scalar.fourthRoot (s.stop - s.start).norm) first
  let last := Knots.orElse (Scalar.fourthRoot (s.after - s.stop).norm) middle
  ⟨first, middle, last⟩

/-- The tangent at the first inner point, per unit of the middle distance. -/
def startTangent (s : Span α) : Vec3 α :=
  let d := s.knots
  d.middle • ((s.start - s.before) / d.first - (s.stop - s.before) / (d.first + d.middle)
    + (s.stop - s.start) / d.middle)

/-- The tangent at the second inner point, per unit of the middle distance. -/
def stopTangent (s : Span α) : Vec3 α :=
  let d := s.knots
  d.middle • ((s.stop - s.start) / d.middle - (s.after - s.start) / (d.middle + d.last)
    + (s.after - s.stop) / d.last)

def cubic (s : Span α) : CubicArc α := .hermite s.start s.stop s.startTangent s.stopTangent

end Span

/-- The control points of a spline. -/
structure Spline (α : Type) where
  points : Array (Vec3 α)
  two_le : 2 ≤ points.size

namespace Spline

def ofPoints (points : Array (Vec3 α)) : Except (CurveError α) (Spline α) :=
  if h : 2 ≤ points.size then .ok ⟨points, h⟩ else .error (.tooFewPoints points.size)

/-- The span between control points `k` and `k + 1`. -/
def span (s : Spline α) (k : Nat) (h : k + 1 < s.points.size) : Span α :=
  let start := s.points[k]
  let stop := s.points[k + 1]
  { before := if 0 < k then s.points[k - 1] else start - (stop - start)
    start := start
    stop := stop
    after := if h : k + 2 < s.points.size then s.points[k + 2] else stop + (stop - start) }

/-- `x` in units of the parameter distance between control points. -/
def scaled (s : Spline α) (x : α) : α := (s.points.size - 1 : Nat) * x

/-- The number of the span that holds `x`. -/
def spanIndex (s : Spline α) (x : α) : Nat :=
  min (Scalar.floor (s.scaled x)) (s.points.size - 2)

theorem spanIndex_succ_lt (s : Spline α) (x : α) : s.spanIndex x + 1 < s.points.size := by
  have := s.two_le
  simp only [spanIndex]
  omega

def point (s : Spline α) (x : α) : Vec3 α :=
  let k := s.spanIndex x
  (s.span k (s.spanIndex_succ_lt x)).cubic.eval (s.scaled x - k)

def curve (s : Spline α) : Curve α := .ofPoint s.point

end Spline

end ProceduralTree
