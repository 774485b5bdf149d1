import Mathlib.Data.List.Chain
import ProceduralTree.Proofs.Curve.Knots
import ProceduralTree.Proofs.Skeleton.Branches
import ProceduralTree.Proofs.Turtle.Orientation

/-!
# Points of branches keep apart

A point is recorded only if the turtle has left the one recorded last, and at most one for each turn
and one at the end of a branch. So neighbouring points of a branch can be told apart, and a spline
through them never has to do with points that coincide.

## Main statements

* `Turtle.Draws.isChain_points` — the points that a level records keep apart.
* `Turtle.Draws.length_points_le` — and there are only so many.
* `points_of_interpret` — the points of all branches of a skeleton, and splines through them.
-/

namespace ProceduralTree

variable {α : Type} [Scalar α]

/-- The second point counts as another one than the first. -/
def Vec3.Apart (p q : Vec3 α) : Prop := Scalar.tolerance < (q - p).norm

namespace Turtle.Draws

variable {limit : Nat} {turtle : Turtle α} {last : Vec3 α} {sentence : Sentence}
  {level : Level α limit}

/-- Every point that a level records is apart from the one recorded before it. -/
theorem isChain_points (h : turtle.Draws last sentence level) :
    (last :: level.points).IsChain Vec3.Apart := by
  induction h with
  | sentence turtle last | bracket turtle last =>
    by_cases hleft : turtle.HasLeft last
    · simp only [Level.close, Level.weaken, if_pos hleft]
      exact List.isChain_pair.2 hleft
    · simp only [Level.close, Level.weaken, if_neg hleft]
      exact List.isChain_singleton last
  | step _ _ _ ih | turn _ _ _ _ ih | fork _ _ _ _ ih => exact ih
  | record _ left _ _ ih => exact List.isChain_cons_cons.2 ⟨left, ih⟩

/-- A level records a point at its turns and at its end only. -/
theorem length_points_le (h : turtle.Draws last sentence level) :
    level.points.length ≤ (Sentence.own sentence).turns + 1 := by
  induction h with
  | sentence turtle last | bracket turtle last =>
    simp only [Level.close, Level.weaken]
    split <;> simp
  | step hc _ _ ih =>
    rw [Sentence.own_cons_forward hc]
    exact ih.trans (Nat.succ_le_succ (List.sublist_cons_self _ _).countP_le)
  | record hc _ _ _ ih =>
    rw [Sentence.own_cons_turn hc, Sentence.turns_cons_turn hc]
    exact Nat.succ_le_succ ih
  | turn hc _ _ _ ih =>
    rw [Sentence.own_cons_turn hc, Sentence.turns_cons_turn hc]
    exact Nat.le_succ_of_le ih
  | fork inside _ _ _ ih =>
    rw [inside.own_opening]
    exact ih

end Turtle.Draws

/-! ## Skeletons -/

/-- The points of branch `n`, which begins behind the opening bracket `n`. -/
theorem points_of_getElem? {turtle : Turtle α} {sentence : Sentence} {i : Interpretation α}
    {n : Nat} {b : Branch α} (h : interpret turtle sentence = .ok i)
    (hb : i.root.preorder[n]? = some b) :
    (0 < b.points.size ∧ b.points.size ≤ 2 + (sentence.reach.behind n).own.turns) ∧
      ∀ k (hk : k + 1 < b.points.size), Vec3.Apart b.points[k] b.points[k + 1] := by
  obtain ⟨s, limit, level, -, hdraws, rfl⟩ := exists_draws_of_getElem? h hb
  have hlength := hdraws.length_points_le
  refine ⟨⟨Nat.succ_pos _, ?_⟩, List.isChain_iff_getElem.1 hdraws.isChain_points⟩
  simp only [Level.branch, List.size_toArray, List.length_cons]
  omega

/-- A spline through points that keep apart has parameter distances that are large enough. -/
theorem Spline.keepsKnots_of_apart {s : Spline ℝ}
    (h : ∀ k (hk : k + 1 < s.points.size), Vec3.Apart (s.span k hk).start (s.span k hk).stop)
    (k : Nat) (hk : k + 1 < s.points.size) : (s.span k hk).KeepsKnots := by
  refine keepsKnots_of_le_norm (fun k hk => le_trans ?_ (h k hk).le) hk
  norm_num [Scalar.tolerance]

/-- All branches of a skeleton have a point, no more than two beside one for each turn on their own
level, and every point is apart from the one before it. So there is a spline through every branch
that has two points, and without rounding none of its parameter distances is ever replaced. -/
theorem points_of_interpret (sentence : Sentence) :
    (∀ {α : Type} [Scalar α] (turtle : Turtle α) (i : Interpretation α),
      interpret turtle sentence = .ok i → ∀ n b, i.root.preorder[n]? = some b →
        0 < b.points.size ∧ b.points.size ≤ 2 + (sentence.reach.behind n).own.turns ∧
        ∀ k (hk : k + 1 < b.points.size),
          Scalar.tolerance < (b.points[k + 1] - b.points[k]).norm) ∧
    ∀ (turtle : Turtle ℝ) (i : Interpretation ℝ), interpret turtle sentence = .ok i →
      ∀ b ∈ i.root.preorder, ¬b.IsDegenerate → ∃ s, Spline.ofPoints b.points = .ok s ∧
        ∀ x, (s.span (s.spanIndex x) (s.spanIndex_succ_lt x)).KeepsKnots ∧
          (s.span (s.spanIndex x) (s.spanIndex_succ_lt x)).knots =
            (s.span (s.spanIndex x) (s.spanIndex_succ_lt x)).distances := by
  constructor
  · intro α _ turtle i h n b hb
    obtain ⟨⟨hpos, hle⟩, hapart⟩ := points_of_getElem? h hb
    exact ⟨hpos, hle, hapart⟩
  · intro turtle i h b hb hpoints
    obtain ⟨n, hn⟩ := List.getElem?_of_mem hb
    obtain ⟨-, hapart⟩ := points_of_getElem? h hn
    refine ⟨⟨b.points, not_lt.1 hpoints⟩, dif_pos (not_lt.1 hpoints), fun x => ?_⟩
    have hkeeps := Spline.keepsKnots_of_apart (s := ⟨b.points, not_lt.1 hpoints⟩) hapart
    exact ⟨hkeeps _ _, (hkeeps _ _).knots_eq⟩

/-- The first step from the start leads away, if it is not too short. -/
theorem Turtle.hasLeft_advance_start {traits : TurtleTraits ℝ}
    (h : Scalar.tolerance < traits.stepLength) : (start traits).advance.HasLeft 0 := by
  have hnorm := norm_advance_sub (normSq_orientation_start traits)
  exact h.trans_le ((le_abs_self _).trans_eq hnorm.symm)

/-- A branch that turns and forks, in a sentence that ends early. -/
theorem points_of_interpret_bend :
    ∃ i b, interpret (Turtle.start (default : TurtleTraits ℝ))
        ['A', '+', 'A', '[', '-', 'A', ']', ']', 'B'] = .ok i ∧
      i.root.preorder[0]? = some b ∧ ¬b.IsDegenerate ∧ b.points.size ≤ 3 ∧
      ∃ s, Spline.ofPoints b.points = .ok s ∧
        ∀ x, (s.span (s.spanIndex x) (s.spanIndex_succ_lt x)).KeepsKnots := by
  obtain ⟨hpoints, hsplines⟩ :=
    points_of_interpret ['A', '+', 'A', '[', '-', 'A', ']', ']', 'B']
  let trunk : OpenBranch ℝ := (OpenBranch.start (.start default)).advance
  have hleft : trunk.turtle.HasLeft trunk.last :=
    Turtle.hasLeft_advance_start (by norm_num [Scalar.tolerance, default])
  let bend : OpenBranch ℝ := (trunk.rotate ⟨.yaw, false⟩).advance
  let fork : Branch ℝ := ((OpenBranch.start bend.turtle).rotate ⟨.yaw, true⟩).advance.close
  have h : interpret (Turtle.start (default : TurtleTraits ℝ))
      ['A', '+', 'A', '[', '-', 'A', ']', ']', 'B'] = .ok ⟨(bend.addFork fork).close, some 7⟩ := rfl
  have hfirst : (bend.addFork fork).close.preorder[0]? = some (bend.addFork fork).close := by
    rw [Branch.preorder_eq, List.getElem?_cons_zero]
  have hearlier : (bend.addFork fork).earlier = [trunk.last] :=
    congrArg OpenBranch.earlier (OpenBranch.rotate_of_hasLeft hleft ⟨.yaw, false⟩)
  have hsize : ¬(bend.addFork fork).close.IsDegenerate := by
    rw [Branch.IsDegenerate, OpenBranch.close, OpenBranch.record_eq]
    split <;> simp [hearlier]
  obtain ⟨s, hs, hkeeps⟩ := hsplines _ _ h _ (List.mem_of_getElem? hfirst) hsize
  exact ⟨_, _, h, hfirst, hsize, (hpoints _ _ h 0 _ hfirst).2.1, s, hs, fun x => (hkeeps x).1⟩

end ProceduralTree
