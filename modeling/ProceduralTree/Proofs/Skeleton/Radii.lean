import Mathlib.Logic.Function.Iterate
import ProceduralTree.Proofs.Skeleton.Drawing
import ProceduralTree.Proofs.Skeleton.Traversal

/-!
# Radii of skeletons

The radius of a turtle only ever changes by decay, and forks are read with the radius that the
turtle has at their bracket. What decay preserves holds of all radii of a skeleton if it holds of
the first.

## Main definitions

* `Branch.HasRadii` — a property of all radii of a tree.

## Main statements

* `hasRadii_of_interpret` — what all radii of a skeleton have in common.
* `exists_iterate_of_interpret` — every radius is the first one after some decay.
-/

namespace ProceduralTree

variable {α : Type}

/-- The radii at both ends of all branches of a tree have the property. -/
def Branch.HasRadii (P : α → Prop) (b : Branch α) : Prop :=
  ∀ c ∈ b.lastFirst, P c.radiusBegin ∧ P c.radiusEnd

namespace Branch

variable {P : α → Prop} {b : Branch α}

theorem hasRadii_iff :
    b.HasRadii P ↔ (P b.radiusBegin ∧ P b.radiusEnd) ∧ ∀ fork ∈ b.forks, fork.HasRadii P := by
  simp only [HasRadii, lastFirst_eq b, List.forall_mem_cons, lastFirstOf_eq, List.mem_flatMap,
    List.mem_reverse]
  grind

end Branch

/-- The radii that a level adds have the property: that at its end and those of its forks. -/
def Level.HasRadii (P : α → Prop) {limit : Nat} (level : Level α limit) : Prop :=
  P level.radiusEnd ∧ ∀ fork ∈ level.forks, fork.HasRadii P

variable {P : α → Prop}

theorem Level.HasRadii.branch {limit : Nat} {level : Level α limit} (h : level.HasRadii P)
    {turtle : Turtle α} (hradius : P turtle.radius) : (level.branch turtle).HasRadii P :=
  Branch.hasRadii_iff.2 ⟨⟨hradius, h.1⟩, h.2⟩

variable [Scalar α]

/-- What decay preserves holds of all radii that a level adds. -/
theorem Turtle.Draws.hasRadii {limit : Nat} {turtle : Turtle α} {last : Vec3 α}
    {sentence : Sentence} {level : Level α limit} (h : turtle.Draws last sentence level)
    (hradius : P turtle.radius) (hdecay : ∀ r, P r → P (r * turtle.traits.radiusDecay)) :
    level.HasRadii P := by
  induction h with
  | sentence | bracket => exact ⟨hradius, List.forall_mem_nil _⟩
  | step _ _ _ ih => exact ih (hdecay _ hradius) hdecay
  | record _ _ _ _ ih | turn _ _ _ _ ih => exact ih hradius hdecay
  | fork _ _ _ ihInside ih =>
    have hfork := (ihInside hradius hdecay).branch hradius
    obtain ⟨hend, hforks⟩ := ih hradius hdecay
    exact ⟨hend, List.forall_mem_cons.2 ⟨hfork, hforks⟩⟩

/-- What decay preserves holds of all radii of a skeleton. -/
theorem hasRadii_of_interpret {turtle : Turtle α} {sentence : Sentence} {i : Interpretation α}
    (hradius : P turtle.radius) (hdecay : ∀ r, P r → P (r * turtle.traits.radiusDecay))
    (h : interpret turtle sentence = .ok i) : i.root.HasRadii P := by
  obtain ⟨level, hdraws, hroot⟩ := exists_draws_of_interpret h
  rw [hroot]
  exact (hdraws.hasRadii hradius hdecay).branch hradius

/-- Every radius of a skeleton is the first radius after some steps. -/
theorem exists_iterate_of_interpret {turtle : Turtle α} {sentence : Sentence} {i : Interpretation α}
    (h : interpret turtle sentence = .ok i) :
    i.root.HasRadii fun r => ∃ k, r = (· * turtle.traits.radiusDecay)^[k] turtle.radius := by
  refine hasRadii_of_interpret ⟨0, rfl⟩ ?_ h
  rintro _ ⟨k, rfl⟩
  exact ⟨k + 1, (Function.iterate_succ_apply' (· * turtle.traits.radiusDecay) k _).symm⟩

end ProceduralTree
