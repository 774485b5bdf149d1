import ProceduralTree.Grammar.Rules
import ProceduralTree.Space.Quaternion

/-!
# The turtle

A turtle stands at a position, faces along the Y axis of its own frame and carries a step length
and a radius, both of which decay with every step.

## Main definitions

* `Symbol.ofChar?` — the meaning of a character of a sentence.
* `Turtle.advance`, `Turtle.rotate` — the two moves.
-/

namespace ProceduralTree

/-- The axis of the turtle's own frame that a turn goes about: Z, Y or X. -/
inductive TurnAxis where
  | yaw
  | roll
  | pitch
deriving DecidableEq, Repr

structure Turn where
  axis : TurnAxis
  /-- Whether the turn goes the negative way round. -/
  reversed : Bool
deriving DecidableEq, Repr

namespace Turn

def opposite (t : Turn) : Turn := { t with reversed := !t.reversed }

@[simp] theorem opposite_opposite (t : Turn) : t.opposite.opposite = t := by
  simp [opposite]

end Turn

/-- What a character of a sentence tells the turtle to do. -/
inductive Symbol where
  | forward
  | turn (t : Turn)
  | openFork
  | closeFork
deriving DecidableEq, Repr

def Symbol.ofChar? (c : Char) : Option Symbol :=
  match c with
  | '+' => some (.turn ⟨.yaw, false⟩)
  | '-' => some (.turn ⟨.yaw, true⟩)
  | '/' => some (.turn ⟨.roll, false⟩)
  | '\\' => some (.turn ⟨.roll, true⟩)
  | '^' => some (.turn ⟨.pitch, false⟩)
  | '_' => some (.turn ⟨.pitch, true⟩)
  | '[' => some .openFork
  | ']' => some .closeFork
  | c => if 'A' ≤ c ∧ c ≤ 'Z' then some .forward else none

/-- How a turtle starts out. -/
structure TurtleTraits (α : Type) where
  /-- The angle of every turn, in radians. -/
  angle : α
  stepLength : α
  radius : α
  /-- What each step multiplies the step length by. -/
  lengthDecay : α
  /-- What each step multiplies the radius by. -/
  radiusDecay : α

structure Turtle (α : Type) where
  position : Vec3 α
  orientation : Quaternion α
  traits : TurtleTraits α
  stepLength : α
  radius : α

variable {α : Type} [Scalar α]

instance : Inhabited (TurtleTraits α) :=
  ⟨{ angle := Scalar.ofDegrees (20 : Nat), stepLength := 1, radius := Scalar.ratio 1 2
     lengthDecay := 1, radiusDecay := 1 }⟩

namespace TurnAxis

def direction : TurnAxis → Vec3 α
  | yaw => .zAxis
  | roll => .yAxis
  | pitch => .xAxis

end TurnAxis

/-- The rotation of a turn by `angle`. -/
def Turn.rotation (t : Turn) (angle : α) : Quaternion α :=
  .ofAxisAngle t.axis.direction (if t.reversed then -angle else angle)

namespace Turtle

/-- A turtle at the origin, facing up the Y axis. -/
def start (traits : TurtleTraits α) : Turtle α where
  position := 0
  orientation := 1
  traits := traits
  stepLength := traits.stepLength
  radius := traits.radius

def heading (t : Turtle α) : Vec3 α := t.orientation.rotate .yAxis

/-- One step along the heading; step length and radius decay after it. -/
def advance (t : Turtle α) : Turtle α :=
  { t with
    position := t.position + t.stepLength • t.heading
    stepLength := t.stepLength * t.traits.lengthDecay
    radius := t.radius * t.traits.radiusDecay }

/-- A turn in the turtle's own frame. -/
def rotate (t : Turtle α) (turn : Turn) : Turtle α :=
  { t with orientation := (t.orientation * turn.rotation t.traits.angle).renormalize }

end Turtle

end ProceduralTree
