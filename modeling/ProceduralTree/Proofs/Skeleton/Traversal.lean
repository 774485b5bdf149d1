import ProceduralTree.Skeleton.Branch

/-!
# Traversal of skeletons

The walks over a skeleton keep a stack of branches. What is still to be visited is at all times the
concatenation of the traversals, by recursion, of the branches on the stack.

## Main definitions

* `Branch.lastFirst` — a branch and all below it by recursion, the last fork before the others.
* `Branch.height` — the number of levels by recursion.

## Main statements

* `Branch.reversePreorder_eq_lastFirst` — the walk with a stack visits the same branches in the same
  order.
* `Branch.length_lastFirst`, `Branch.length_preorder` — and it visits each of them once.
* `Branch.depth_eq_height` — the walk that counts levels.
-/

namespace ProceduralTree.Branch

variable {α : Type}

mutual

/-- The branch, and then its forks with all below them, the last fork first. -/
def lastFirst : Branch α → List (Branch α)
  | ⟨points, forks, radiusBegin, radiusEnd⟩ =>
    ⟨points, forks, radiusBegin, radiusEnd⟩ :: lastFirstOf forks

/-- The branches of a list with all below them, the last first. -/
def lastFirstOf : List (Branch α) → List (Branch α)
  | [] => []
  | b :: rest => lastFirstOf rest ++ b.lastFirst

end

theorem lastFirst_eq (b : Branch α) : b.lastFirst = b :: lastFirstOf b.forks := by
  cases b
  rw [lastFirst]

theorem lastFirstOf_eq (forks : List (Branch α)) :
    lastFirstOf forks = forks.reverse.flatMap lastFirst := by
  induction forks with
  | nil => rfl
  | cons b rest ih => simp [lastFirstOf, ih]

/-- What a walk has still to visit is what recursion finds below the branches on its stack. -/
theorem reversePreorderOnto_eq (done stack : List (Branch α)) :
    reversePreorderOnto done stack = done.reverse ++ stack.flatMap lastFirst := by
  match stack with
  | [] => simp [reversePreorderOnto]
  | b :: stack =>
    rw [reversePreorderOnto, reversePreorderOnto_eq (b :: done), List.flatMap_append,
      List.flatMap_cons, ← lastFirstOf_eq, lastFirst_eq]
    simp
termination_by total stack
decreasing_by simp [total_cons]

theorem reversePreorder_eq_lastFirst (b : Branch α) : b.reversePreorder = b.lastFirst := by
  simp [reversePreorder, reversePreorderOnto_eq]

mutual

theorem length_lastFirst : (b : Branch α) → b.lastFirst.length = b.size
  | ⟨points, forks, radiusBegin, radiusEnd⟩ => by
    rw [lastFirst, List.length_cons, length_lastFirstOf forks, size, Nat.add_comm]

theorem length_lastFirstOf : (forks : List (Branch α)) → (lastFirstOf forks).length = total forks
  | [] => rfl
  | b :: rest => by
    rw [lastFirstOf, List.length_append, length_lastFirstOf rest, length_lastFirst b, total,
      Nat.add_comm]

end

theorem length_preorderOnto (done stack : List (Branch α)) :
    (preorderOnto done stack).length = done.length + total stack := by
  match stack with
  | [] => simp [preorderOnto, total]
  | b :: stack =>
    rw [preorderOnto, length_preorderOnto (b :: done), List.length_cons, total_append, total_cons]
    omega
termination_by total stack
decreasing_by rw [total_append, total_cons]; omega

/-- The walk in the order of the forks visits each branch once as well. -/
theorem length_preorder (b : Branch α) : b.preorder.length = b.size := by
  rw [preorder, length_preorderOnto, List.length_nil, Nat.zero_add]
  rfl

/-- What the walk has still to visit is what it visits from each branch on its stack. -/
theorem preorderOnto_nil (stack : List (Branch α)) :
    preorderOnto [] stack = stack.flatMap preorder := by
  match stack with
  | [] => simp [preorderOnto]
  | b :: stack =>
    have hstack := preorderOnto_nil (b.forks ++ stack)
    have hforks := preorderOnto_nil (b.forks ++ [])
    rw [List.flatMap_cons, preorder, preorderOnto, preorderOnto_eq [b], hstack, preorderOnto,
      preorderOnto_eq [b], hforks]
    simp
termination_by total stack
decreasing_by all_goals simp only [total_append, total, size_eq]; omega

theorem preorder_eq (b : Branch α) : b.preorder = b :: b.forks.flatMap preorder := by
  rw [preorder, preorderOnto, preorderOnto_eq, List.append_nil, preorderOnto_nil]
  rfl

theorem length_flatMap_preorder (forks : List (Branch α)) :
    (forks.flatMap preorder).length = total forks := by
  induction forks with
  | nil => rfl
  | cons b rest ih => rw [List.flatMap_cons, List.length_append, length_preorder, ih, total]

/-! ## Levels -/

mutual

/-- The number of levels of a tree. -/
def height : Branch α → Nat
  | ⟨_, forks, _, _⟩ => 1 + heightOf forks

/-- The number of levels of the highest of some trees. -/
def heightOf : List (Branch α) → Nat
  | [] => 0
  | b :: rest => max b.height (heightOf rest)

end

theorem height_eq (b : Branch α) : b.height = 1 + heightOf b.forks := by
  cases b
  rw [height]

theorem heightOf_append (forks forks' : List (Branch α)) :
    heightOf (forks ++ forks') = max (heightOf forks) (heightOf forks') := by
  induction forks with
  | nil => simp [heightOf]
  | cons b rest ih => simp [heightOf, ih, Nat.max_assoc]

theorem heightOf_reverse (forks : List (Branch α)) : heightOf forks.reverse = heightOf forks := by
  induction forks with
  | nil => rfl
  | cons b rest ih => simp [heightOf, heightOf_append, ih, Nat.max_comm]

/-- The deepest level below branches of which each has a level. -/
def deepestLevel : List (Branch α × Nat) → Nat
  | [] => 0
  | (b, level) :: stack => max (level + heightOf b.forks) (deepestLevel stack)

theorem deepestLevel_append (stack stack' : List (Branch α × Nat)) :
    deepestLevel (stack ++ stack') = max (deepestLevel stack) (deepestLevel stack') := by
  induction stack with
  | nil => simp [deepestLevel]
  | cons b stack ih => simp [deepestLevel, ih, Nat.max_assoc]

theorem deepestLevel_forks (forks : List (Branch α)) (level : Nat) :
    max level (deepestLevel (forks.map (·, level + 1))) = level + heightOf forks := by
  induction forks with
  | nil => simp [deepestLevel, heightOf]
  | cons b rest ih =>
    simp only [List.map_cons, deepestLevel, heightOf, height_eq]
    omega

theorem deepestOf_eq (deepest : Nat) (stack : List (Branch α × Nat)) :
    deepestOf deepest stack = max deepest (deepestLevel stack) := by
  match stack with
  | [] => simp [deepestOf, deepestLevel]
  | (b, level) :: stack =>
    have hforks := deepestLevel_forks b.forks.reverse level
    rw [heightOf_reverse] at hforks
    rw [deepestOf, deepestOf_eq, deepestLevel_append, deepestLevel]
    omega
termination_by total (stack.map Prod.fst)
decreasing_by simp [total_cons, Function.comp_def]

/-- The walk that counts levels finds as many as recursion does. -/
theorem depth_eq_height (b : Branch α) : b.depth = b.height := by
  rw [depth, deepestOf_eq, height_eq]
  simp [deepestLevel]

end ProceduralTree.Branch
