import ProceduralTree.Proofs.Space.Rotations
import ProceduralTree.Turtle

/-!
# The orientation of a turtle

A turtle turns by products of quaternions, each of which it renormalizes. Without rounding, a norm
that is off by no more than one is drawn to one with every turn, and a norm of one remains. Then a
turtle faces along a unit vector, and turns can be taken back.

## Main definitions

* `Turtle.moveAll`, `Turtle.turnAll` — a turtle after some moves, or after some turns.
* `Turn.takeBack` — the opposite turns in reverse.

## Main statements

* `Turtle.abs_normSq_turnAll_sub_one_le` — every turn squares the error of the norm.
* `Turtle.normSq_orientation_moveAll` — no moves change a norm of one.
* `Turtle.turnAll_takeBack`, `Turtle.heading_turnAll_of_roll` — turns that are taken back, and
  rolls.
* `Turtle.orientation_keeps` — the orientation of a turtle does not drift.
-/

namespace ProceduralTree

/-! ## Turns -/

theorem TurnAxis.normSq_direction (axis : TurnAxis) : (axis.direction : Vec3 ℝ).normSq = 1 := by
  cases axis <;> simp [direction, Vec3.normSq, Vec3.dot, Vec3.xAxis, Vec3.yAxis, Vec3.zAxis]

namespace Turn

variable (turn : Turn) (angle : ℝ)

theorem normSq_rotation : (turn.rotation angle).normSq = 1 :=
  Quaternion.normSq_ofAxisAngle turn.axis.normSq_direction _

theorem rotation_mul_opposite : turn.rotation angle * turn.opposite.rotation angle = 1 := by
  obtain ⟨axis, reversed⟩ := turn
  have h (a : ℝ) := Quaternion.ofAxisAngle_mul_neg axis.normSq_direction a
  cases reversed with
  | false => exact h angle
  | true => simpa [rotation, opposite] using h (-angle)

/-- The turns that lead back, the last one first. -/
def takeBack (turns : List Turn) : List Turn := (turns.map opposite).reverse

theorem takeBack_cons (turns : List Turn) :
    takeBack (turn :: turns) = takeBack turns ++ [turn.opposite] := by
  simp [takeBack]

end Turn

namespace Turtle

/-! ## Moves -/

/-- What a turtle can be told to do. -/
inductive Move where
  | advance
  | rotate (turn : Turn)

section Moves

variable {α : Type} [Scalar α]

def move (t : Turtle α) : Move → Turtle α
  | .advance => t.advance
  | .rotate turn => t.rotate turn

/-- The turtle after some moves. -/
def moveAll (t : Turtle α) (moves : List Move) : Turtle α := moves.foldl move t

/-- The turtle after some turns. -/
def turnAll (t : Turtle α) (turns : List Turn) : Turtle α := turns.foldl rotate t

end Moves

variable {t : Turtle ℝ}

/-! ## Norms -/

theorem abs_normSq_rotate_sub_one_le (h : |t.orientation.normSq - 1| ≤ 1) (turn : Turn) :
    |(t.rotate turn).orientation.normSq - 1| ≤ |t.orientation.normSq - 1| ^ 2 := by
  have hmul : (t.orientation * turn.rotation t.traits.angle).normSq = t.orientation.normSq := by
    rw [Quaternion.normSq_mul, turn.normSq_rotation, mul_one]
  rw [← hmul] at h ⊢
  exact Quaternion.abs_normSq_renormalize_sub_one_le h

/-- Every turn squares the distance of the squared norm from one. -/
theorem abs_normSq_turnAll_sub_one_le (h : |t.orientation.normSq - 1| ≤ 1) (turns : List Turn) :
    |(t.turnAll turns).orientation.normSq - 1| ≤
      |t.orientation.normSq - 1| ^ 2 ^ turns.length := by
  induction turns generalizing t with
  | nil => simp [turnAll]
  | cons turn turns ih =>
    have hstep := abs_normSq_rotate_sub_one_le h turn
    calc |((t.rotate turn).turnAll turns).orientation.normSq - 1|
        ≤ |(t.rotate turn).orientation.normSq - 1| ^ 2 ^ turns.length :=
          ih (hstep.trans (pow_le_one₀ (abs_nonneg _) h))
      _ ≤ (|t.orientation.normSq - 1| ^ 2) ^ 2 ^ turns.length :=
          pow_le_pow_left₀ (abs_nonneg _) hstep _
      _ = |t.orientation.normSq - 1| ^ 2 ^ (turn :: turns).length := by
          rw [← pow_mul, List.length_cons, pow_succ']

/-- Renormalization has nothing to do. -/
theorem orientation_rotate (h : t.orientation.normSq = 1) (turn : Turn) :
    (t.rotate turn).orientation = t.orientation * turn.rotation t.traits.angle := by
  refine Quaternion.renormalize_eq_self ?_
  rw [Quaternion.normSq_mul, h, turn.normSq_rotation, mul_one]

theorem normSq_orientation_rotate (h : t.orientation.normSq = 1) (turn : Turn) :
    (t.rotate turn).orientation.normSq = 1 := by
  rw [orientation_rotate h, Quaternion.normSq_mul, h, turn.normSq_rotation, mul_one]

theorem normSq_orientation_move (h : t.orientation.normSq = 1) (m : Move) :
    (t.move m).orientation.normSq = 1 := by
  cases m with
  | advance => exact h
  | rotate turn => exact normSq_orientation_rotate h turn

theorem normSq_orientation_moveAll (h : t.orientation.normSq = 1) (moves : List Move) :
    (t.moveAll moves).orientation.normSq = 1 := by
  induction moves generalizing t with
  | nil => exact h
  | cons m moves ih => exact ih (normSq_orientation_move h m)

theorem normSq_orientation_start (traits : TurtleTraits ℝ) :
    (start traits).orientation.normSq = 1 := by
  simp [start, Quaternion.normSq]

theorem norm_heading (h : t.orientation.normSq = 1) : t.heading.norm = 1 := by
  rw [heading, Quaternion.norm_rotate h, Vec3.norm_yAxis]

theorem norm_advance_sub (h : t.orientation.normSq = 1) :
    (t.advance.position - t.position).norm = |t.stepLength| := by
  have hstep : t.advance.position - t.position = t.stepLength • t.heading := by
    ext <;> simp [advance]
  rw [hstep, Vec3.norm_smul, norm_heading h, mul_one]

/-! ## Turns that leave something as it was -/

theorem rotate_opposite (h : t.orientation.normSq = 1) (turn : Turn) :
    (t.rotate turn).rotate turn.opposite = t := by
  have horientation : ((t.rotate turn).rotate turn.opposite).orientation = t.orientation := by
    rw [orientation_rotate (normSq_orientation_rotate h turn), orientation_rotate h,
      Quaternion.mul_assoc]
    exact (congrArg _ (turn.rotation_mul_opposite _)).trans (Quaternion.mul_one _)
  have hrotate : (t.rotate turn).rotate turn.opposite =
      { t with orientation := ((t.rotate turn).rotate turn.opposite).orientation } := rfl
  rw [hrotate, horientation]

/-- Turns that are taken back, the last one first, leave the turtle as it was. -/
theorem turnAll_takeBack (h : t.orientation.normSq = 1) (turns : List Turn) :
    t.turnAll (turns ++ Turn.takeBack turns) = t := by
  induction turns generalizing t with
  | nil => rfl
  | cons turn turns ih =>
    calc t.turnAll (turn :: turns ++ Turn.takeBack (turn :: turns))
        = ((t.rotate turn).turnAll (turns ++ Turn.takeBack turns)).rotate turn.opposite := by
          simp [turnAll, Turn.takeBack_cons]
      _ = (t.rotate turn).rotate turn.opposite := by rw [ih (normSq_orientation_rotate h turn)]
      _ = t := rotate_opposite h turn

theorem heading_rotate_of_roll (h : t.orientation.normSq = 1) {turn : Turn}
    (hroll : turn.axis = .roll) : (t.rotate turn).heading = t.heading := by
  obtain ⟨axis, reversed⟩ := turn
  obtain rfl : axis = .roll := hroll
  rw [heading, orientation_rotate h]
  exact Quaternion.mul_ofAxisAngle_rotate TurnAxis.roll.normSq_direction _

/-- A turtle that only rolls still faces where it did. -/
theorem heading_turnAll_of_roll (h : t.orientation.normSq = 1) (turns : List Turn)
    (hrolls : ∀ turn ∈ turns, turn.axis = .roll) : (t.turnAll turns).heading = t.heading := by
  induction turns generalizing t with
  | nil => rfl
  | cons turn turns ih =>
    obtain ⟨hroll, hrolls⟩ := List.forall_mem_cons.1 hrolls
    exact (ih (normSq_orientation_rotate h turn) hrolls).trans (heading_rotate_of_roll h hroll)

/-- The orientation of a turtle does not drift. If the square of its norm is off by at most one, the
error is squared with every turn. All turtles that started out face along a unit vector, so that
every step is as long as its step length. Turns can be taken back, and rolls do not matter to where
a turtle faces. -/
theorem orientation_keeps :
    (∀ (t : Turtle ℝ) (e : ℝ) (turns : List Turn), t.orientation.normSq = 1 + e → |e| ≤ 1 →
      ∃ e', (t.turnAll turns).orientation.normSq = 1 + e' ∧ |e'| ≤ |e| ^ 2 ^ turns.length) ∧
    (∀ (traits : TurtleTraits ℝ) (moves : List Move),
      let t := (start traits).moveAll moves
      t.orientation.norm = 1 ∧ t.heading.norm = 1 ∧
        (t.advance.position - t.position).norm = |t.stepLength|) ∧
    ∀ t : Turtle ℝ, t.orientation.norm = 1 →
      (∀ turns, (t.turnAll (turns ++ Turn.takeBack turns)).orientation = t.orientation) ∧
      ∀ turns : List Turn, (∀ turn ∈ turns, turn.axis = .roll) →
        (t.turnAll turns).heading = t.heading := by
  refine ⟨fun t e turns he hle => ?_, fun traits moves => ?_, fun t ht => ?_⟩
  · have herror : t.orientation.normSq - 1 = e := by rw [he, add_sub_cancel_left]
    have hbound := abs_normSq_turnAll_sub_one_le (herror ▸ hle) turns
    rw [herror] at hbound
    exact ⟨_, (add_sub_cancel _ _).symm, hbound⟩
  · have hone := normSq_orientation_moveAll (normSq_orientation_start traits) moves
    exact ⟨Quaternion.norm_eq_one_iff.2 hone, norm_heading hone, norm_advance_sub hone⟩
  · have hone := Quaternion.norm_eq_one_iff.1 ht
    exact ⟨fun turns => congrArg _ (turnAll_takeBack hone turns), heading_turnAll_of_roll hone⟩

/-- A turtle that has not turned, with an orientation that is too long. -/
noncomputable def drifted : Turtle ℝ :=
  { start default with orientation := (Scalar.ratio 6 5 : ℝ) • 1 }

/-- Three turns bring the error of a turtle that has drifted to the eighth power. One that has not
may turn there and back, or roll. -/
theorem orientation_keeps_drifted :
    (drifted.orientation.normSq = 1 + Scalar.ratio 11 25 ∧ |(Scalar.ratio 11 25 : ℝ)| ≤ 1 ∧
      ∃ e', (drifted.turnAll [⟨.yaw, false⟩, ⟨.roll, true⟩, ⟨.pitch, false⟩]).orientation.normSq =
        1 + e' ∧ |e'| ≤ |Scalar.ratio 11 25| ^ 8) ∧
    (start (default : TurtleTraits ℝ)).orientation.norm = 1 ∧
    ((start (default : TurtleTraits ℝ)).turnAll
      [⟨.pitch, false⟩, ⟨.yaw, true⟩, ⟨.yaw, false⟩, ⟨.pitch, true⟩]).orientation = 1 ∧
    ((start (default : TurtleTraits ℝ)).turnAll [⟨.roll, false⟩, ⟨.roll, false⟩]).heading =
      (start (default : TurtleTraits ℝ)).heading := by
  obtain ⟨hdrift, -, hunit⟩ := orientation_keeps
  have hnormSq : drifted.orientation.normSq = 1 + Scalar.ratio 11 25 := by
    norm_num [drifted, Quaternion.normSq]
  have hle : |(Scalar.ratio 11 25 : ℝ)| ≤ 1 := by norm_num [abs_le]
  have hstart : (start (default : TurtleTraits ℝ)).orientation.norm = 1 :=
    Quaternion.norm_eq_one_iff.2 (normSq_orientation_start default)
  obtain ⟨hback, hrolls⟩ := hunit _ hstart
  exact ⟨⟨hnormSq, hle, hdrift drifted _ _ hnormSq hle⟩, hstart,
    hback [⟨.pitch, false⟩, ⟨.yaw, true⟩], hrolls _ (by simp)⟩

end Turtle

end ProceduralTree
