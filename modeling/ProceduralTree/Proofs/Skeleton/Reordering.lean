import ProceduralTree.Proofs.Skeleton.Traversal

/-!
# Forks in another order

The forks of a branch may be listed in another order, and so may the forks of any branch below. The
walks then visit the same branches in another order; each of them is as before, but for the order of
its own forks.

## Main definitions

* `Branch.bare` — a branch without its forks.
* `Branch.Reordered` — the same tree with forks in another order.

## Main statements

* `Branch.Reordered.perm_lastFirst` — a walk visits the same bare branches.
-/

namespace ProceduralTree.Branch

variable {α : Type}

/-- The branch without its forks. -/
def bare (b : Branch α) : Branch α := { b with forks := [] }

/-- The second tree is the first with the forks of some branches, at any depth, in another order. -/
inductive Reordered : Branch α → Branch α → Prop
  | permute {points forks forks' radiusBegin radiusEnd} (h : forks.Perm forks') :
    Reordered ⟨points, forks, radiusBegin, radiusEnd⟩ ⟨points, forks', radiusBegin, radiusEnd⟩
  | deeper {points done fork fork' others radiusBegin radiusEnd} (h : Reordered fork fork') :
    Reordered ⟨points, done ++ fork :: others, radiusBegin, radiusEnd⟩
      ⟨points, done ++ fork' :: others, radiusBegin, radiusEnd⟩
  | trans {b b' b''} (h : Reordered b b') (h' : Reordered b' b'') : Reordered b b''

theorem lastFirstOf_append (forks forks' : List (Branch α)) :
    lastFirstOf (forks ++ forks') = lastFirstOf forks' ++ lastFirstOf forks := by
  simp only [lastFirstOf_eq, List.reverse_append, List.flatMap_append]

theorem perm_lastFirstOf {forks forks' : List (Branch α)} (h : forks.Perm forks') :
    (lastFirstOf forks).Perm (lastFirstOf forks') := by
  rw [lastFirstOf_eq, lastFirstOf_eq]
  exact (forks.reverse_perm.trans (h.trans forks'.reverse_perm.symm)).flatMap_right _

theorem Reordered.perm_lastFirst {b b' : Branch α} (h : b.Reordered b') :
    (b.lastFirst.map bare).Perm (b'.lastFirst.map bare) := by
  induction h with
  | permute h =>
    simp only [lastFirst, List.map_cons]
    exact ((perm_lastFirstOf h).map bare).cons _
  | deeper h ih =>
    simp only [lastFirst, lastFirstOf_append, lastFirstOf, List.map_cons, List.map_append]
    exact ((ih.append_left _).append_right _).cons _
  | trans h h' ih ih' => exact ih.trans ih'

end ProceduralTree.Branch
