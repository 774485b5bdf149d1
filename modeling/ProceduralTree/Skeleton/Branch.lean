import ProceduralTree.Space.Vector

/-!
# Branches

The skeleton of a tree is a branch: a polyline with a radius at either end, and the branches that
fork off it. The walks below keep the branches still to be visited on a stack, so the height of a
tree does not matter to them.

## Main definitions

* `Branch.preorder` — a branch before its forks, the first fork and all below it before the next.
* `Branch.reversePreorder` — the same with the last fork first.
* `Branch.forkCount`, `Branch.depth` — how many branches lie below, and on how many levels.
-/

namespace ProceduralTree

structure Branch (α : Type) where
  points : Array (Vec3 α)
  forks : List (Branch α)
  /-- The radius at the first point. -/
  radiusBegin : α
  /-- The radius at the last point. -/
  radiusEnd : α

namespace Branch

variable {α : Type}

/-- Too few points for a curve through them. -/
def IsDegenerate (b : Branch α) : Prop := b.points.size < 2

instance (b : Branch α) : Decidable b.IsDegenerate := inferInstanceAs (Decidable (_ < _))

mutual

/-- The number of branches of a tree. -/
def size : Branch α → Nat
  | ⟨_, forks, _, _⟩ => 1 + total forks

/-- The number of branches on a stack and below it. -/
def total : List (Branch α) → Nat
  | [] => 0
  | b :: rest => b.size + total rest

end

theorem size_eq (b : Branch α) : b.size = 1 + total b.forks := by
  cases b; rfl

theorem total_cons (b : Branch α) (stack : List (Branch α)) :
    total (b :: stack) = 1 + total b.forks + total stack := by
  rw [total, size_eq]

@[simp] theorem total_append (s t : List (Branch α)) : total (s ++ t) = total s + total t := by
  induction s with
  | nil => simp [total]
  | cons b s ih => rw [List.cons_append, total_cons, total_cons, ih]; omega

@[simp] theorem total_reverse (s : List (Branch α)) : total s.reverse = total s := by
  induction s with
  | nil => rfl
  | cons b s ih => simp [ih, total]; omega

/-- Visits the branches on the stack and all below them, a branch before its forks; `done` holds
the branches visited so far, latest first. -/
def preorderOnto (done : List (Branch α)) : List (Branch α) → List (Branch α)
  | [] => done.reverse
  | b :: stack => preorderOnto (b :: done) (b.forks ++ stack)
termination_by stack => total stack
decreasing_by rw [total_append, total_cons]; omega

/-- The branch and all below it, forks in their order. -/
def preorder (b : Branch α) : List (Branch α) := preorderOnto [] [b]

theorem preorderOnto_eq (done stack : List (Branch α)) :
    preorderOnto done stack = done.reverse ++ preorderOnto [] stack := by
  match stack with
  | [] => simp [preorderOnto]
  | b :: stack =>
    rw [preorderOnto, preorderOnto, preorderOnto_eq (b :: done), preorderOnto_eq [b]]
    simp
termination_by total stack
decreasing_by all_goals rw [total_append, total_cons]; omega

/-- As `preorderOnto`, the last fork of a branch before the others. -/
def reversePreorderOnto (done : List (Branch α)) : List (Branch α) → List (Branch α)
  | [] => done.reverse
  | b :: stack => reversePreorderOnto (b :: done) (b.forks.reverse ++ stack)
termination_by stack => total stack
decreasing_by simp [total_cons]

/-- The branch and all below it, the last fork first. -/
def reversePreorder (b : Branch α) : List (Branch α) := reversePreorderOnto [] [b]

/-- The number of branches below, at any level. -/
def forkCount (b : Branch α) : Nat := b.preorder.length - 1

/-- The level of a branch together with those on a stack of branches with their levels; `deepest`
is the greatest level seen so far. -/
def deepestOf (deepest : Nat) : List (Branch α × Nat) → Nat
  | [] => deepest
  | (b, level) :: stack =>
    deepestOf (max deepest level) (b.forks.reverse.map (·, level + 1) ++ stack)
termination_by stack => total (stack.map Prod.fst)
decreasing_by simp [total_cons, Function.comp_def]

/-- The number of levels of the tree, one if the branch has no forks. -/
def depth (b : Branch α) : Nat := deepestOf 0 [(b, 1)]

end Branch

end ProceduralTree
