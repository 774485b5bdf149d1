import ProceduralTree.Proofs.Skeleton.Siblings
import ProceduralTree.Proofs.Skeleton.Traversal

/-!
# Opening brackets and branches

A skeleton has one branch for each opening bracket that its sentence gets to, besides its root. The
walk in the order of the forks visits these branches in the order of the brackets, and the skeleton
has one level more than the brackets are nested.

All of this holds while a sentence is read: the branches that are open, with those on their finished
forks, already are as many and lie on as many levels as the skeleton that they would make if the
sentence ended.

## Main definitions

* `OpenBranch.levels`, `Reading.levels` — the number of levels of open branches with their forks.

## Main statements

* `Reading.exists_after?_reach` — the reading that becomes the skeleton.
* `Reading.levels_of_after?` — the levels behind a part of a sentence.
* `exists_preorder_of_resume` — the place of a fork in the finished skeleton.
* `interpret_openings` — branches and brackets.
-/

namespace ProceduralTree

variable {α : Type}

/-- The number of levels that open branches make, innermost first, with those of their finished
forks. -/
def OpenBranch.levels : List (OpenBranch α) → Nat
  | [] => 0
  | b :: outer => max (outer.length + 1 + Branch.heightOf b.forks) (levels outer)

/-- The number of levels of the open branches. -/
def Reading.levels (s : Reading α) : Nat := OpenBranch.levels (s.current :: s.outer)

theorem Reading.branchCount_start (turtle : Turtle α) : (start turtle).branchCount = 1 := rfl

theorem Reading.levels_start (turtle : Turtle α) : (start turtle).levels = 1 := rfl

theorem Reading.depth_lt_levels (s : Reading α) : s.depth < s.levels := by
  rw [depth, levels, OpenBranch.levels]
  omega

variable [Scalar α]

namespace OpenBranch

@[simp] theorem forks_advance (b : OpenBranch α) : b.advance.forks = b.forks := rfl

@[simp] theorem forks_rotate (b : OpenBranch α) (t : Turn) : (b.rotate t).forks = b.forks :=
  forks_record b

@[simp] theorem height_close (b : OpenBranch α) :
    b.close.height = 1 + Branch.heightOf b.forks := by
  rw [Branch.height_eq, close, Branch.heightOf_reverse, forks_record]

end OpenBranch

/-! ## All branches closed -/

theorem size_closeAll (fork : Branch α) (outer : List (OpenBranch α)) :
    (closeAll fork outer).size = fork.size + OpenBranch.total outer := by
  induction outer generalizing fork with
  | nil => rfl
  | cons parent outer ih =>
    rw [closeAll, ih, OpenBranch.size_close, OpenBranch.size_addFork, OpenBranch.total]
    omega

theorem height_closeAll (fork : Branch α) (outer : List (OpenBranch α)) :
    (closeAll fork outer).height = max (outer.length + fork.height) (OpenBranch.levels outer) := by
  induction outer generalizing fork with
  | nil => simp [closeAll, OpenBranch.levels]
  | cons parent outer ih =>
    rw [closeAll, ih, OpenBranch.height_close, OpenBranch.levels, List.length_cons]
    simp only [OpenBranch.addFork, Branch.heightOf]
    omega

namespace Reading

variable {s s' : Reading α} {c : Char} {u v : Sentence}

theorem forkCount_skeleton (s : Reading α) : s.skeleton.forkCount + 1 = s.branchCount := by
  rw [Branch.forkCount, Branch.length_preorder, skeleton, size_closeAll, OpenBranch.size_close,
    branchCount, OpenBranch.size]
  omega

theorem depth_skeleton (s : Reading α) : s.skeleton.depth = s.levels := by
  rw [Branch.depth_eq_height, skeleton, height_closeAll, OpenBranch.height_close, levels,
    OpenBranch.levels, Nat.add_assoc]

/-! ## Levels -/

theorem depthBehind?_of_step? (h : s.step? c = some s') :
    depthBehind? s.depth c = some s'.depth := by
  obtain ⟨symbol, hc, -⟩ := Option.bind_eq_some_iff.1 h
  have hmeaning : Symbol.HasMeaning c := by simp [← Symbol.isSome_ofChar?_iff, hc]
  rw [← map_depth_step? hmeaning, h, Option.map_some]

/-- One more symbol makes one more level at most, and only if it opens a fork. -/
theorem levels_of_step? (h : s.step? c = some s') :
    s'.levels = max s.levels (s'.depth + 1) := by
  obtain ⟨symbol, -, hnext⟩ := Option.bind_eq_some_iff.1 h
  obtain ⟨current, outer⟩ := s
  cases symbol with
  | forward | turn =>
    cases hnext
    have hdepth := depth_lt_levels ⟨current, outer⟩
    simp only [levels, depth, OpenBranch.levels, OpenBranch.forks_advance,
      OpenBranch.forks_rotate] at hdepth ⊢
    omega
  | openFork =>
    cases hnext
    simp only [levels, depth, OpenBranch.levels, OpenBranch.start, Branch.heightOf,
      List.length_cons]
    omega
  | closeFork =>
    cases outer with
    | nil => cases hnext
    | cons parent outer =>
      cases hnext
      simp only [levels, depth, OpenBranch.levels, OpenBranch.addFork, Branch.heightOf,
        OpenBranch.height_close, List.length_cons]
      omega

/-- The levels behind a part of a sentence are those before it, and those that its brackets lead
to. -/
theorem levels_of_after? (h : s.after? u = some s') :
    s'.levels = max s.levels (Sentence.deepest s.depth u + 1) := by
  induction u generalizing s with
  | nil =>
    cases h
    exact (Nat.max_eq_left (depth_lt_levels _)).symm
  | cons c u ih =>
    obtain ⟨between, hstep, hafter⟩ := Option.bind_eq_some_iff.1 h
    have hlevels := levels_of_step? hstep
    have hdepth := depth_lt_levels s
    have hle := Sentence.le_deepest between.depth u
    rw [ih hafter, hlevels, Sentence.deepest, depthBehind?_of_step? hstep]
    simp only
    omega

/-! ## The end of a reading -/

/-- A reading that is accepted ends behind the part of its sentence before the first closing bracket
that has no partner. -/
theorem exists_after?_reach {position : Nat} {rest : Sentence} {i : Interpretation α}
    (h : s.read position rest = .ok i) :
    ∃ s', s.after? (Sentence.reachFrom s.depth rest) = some s' ∧ i.root = s'.skeleton := by
  induction rest generalizing s position with
  | nil =>
    cases h
    exact ⟨s, rfl, rfl⟩
  | cons c rest ih =>
    obtain ⟨-, hread⟩ | ⟨hc, ⟨hstep, houter, hread⟩ | ⟨between, hstep, hread⟩⟩ :=
      s.read_cons_cases position c rest
    · cases hread.symm.trans h
    · cases hread.symm.trans h
      have hbehind := map_depth_step? hc s
      rw [hstep, Option.map_none] at hbehind
      refine ⟨s, ?_, by rw [skeleton, houter, closeAll]⟩
      rw [Sentence.reachFrom, ← hbehind]
      rfl
    · obtain ⟨s', hafter, hroot⟩ := ih (hread.symm.trans h)
      refine ⟨s', ?_, hroot⟩
      rw [Sentence.reachFrom, depthBehind?_of_step? hstep]
      simp only
      rw [after?_cons, hstep, Option.bind_some, hafter]

end Reading

/-! ## The place of a fork -/

/-- In the finished skeleton, a branch with all below it stands behind as many branches as are open
around it, with those on their forks. -/
theorem exists_preorder_of_resume {fork : Branch α} {outer : List (OpenBranch α)} {ending : Ending}
    {i : Interpretation α} (h : resume fork outer ending = .ok i) :
    ∃ before after, i.root.preorder = before ++ fork.preorder ++ after ∧
      before.length = OpenBranch.total outer := by
  induction outer generalizing fork ending with
  | nil =>
    cases h
    exact ⟨[], [], by simp, rfl⟩
  | cons parent outer ih =>
    rw [resume, interpretFrom_eq, bind_eq_ok] at h
    obtain ⟨level, -, h⟩ := h
    obtain ⟨before, after, hroot, hbefore⟩ := ih h
    rw [OpenBranch.addFork_finish] at hroot
    -- The parent comes first, then its forks from before this one.
    refine ⟨before ++ parent.finish (level.addFork fork) ::
      parent.forks.reverse.flatMap Branch.preorder, level.forks.flatMap Branch.preorder ++ after,
      ?_, ?_⟩
    · rw [hroot, Branch.preorder_eq (parent.finish _)]
      simp [OpenBranch.finish, Level.addFork]
    · rw [List.length_append, List.length_cons, Branch.length_flatMap_preorder,
        Branch.total_reverse, hbefore, OpenBranch.total, OpenBranch.size]
      omega

/-- An opening bracket draws the branch that what follows it draws by itself, and all branches of
which the brackets were opened before come before it. -/
theorem Reading.exists_fork_of_read {s : Reading α} {position : Nat} {v : Sentence}
    {i : Interpretation α} (h : s.read position ('[' :: v) = .ok i) :
    ∃ fork unmatched, interpret s.current.turtle v = .ok ⟨fork, unmatched⟩ ∧
      i.root.preorder[s.branchCount]? = some fork ∧
      fork.points[0]? = some s.current.turtle.position ∧
      fork.radiusBegin = s.current.turtle.radius := by
  have hopening : s.step? '[' = some ⟨.start s.current.turtle, s.current :: s.outer⟩ := rfl
  rw [read_cons hopening, Nat.add_comm position 1, ← Nat.zero_add (1 + position)] at h
  obtain ⟨j, hj, rfl⟩ := exists_read_of_read_add h
  rw [read, interpretFrom_eq, bind_eq_ok] at hj
  obtain ⟨level, hlevel, hresume⟩ := hj
  obtain ⟨before, after, hroot, hbefore⟩ := exists_preorder_of_resume hresume
  refine ⟨level.branch s.current.turtle, level.ending.bracket?, ?_, ?_, rfl, rfl⟩
  · rw [interpret, interpretFrom_eq, bind_eq_ok]
    exact ⟨level, hlevel, rfl⟩
  · change j.root.preorder[s.branchCount]? = _
    have hplace : before.length = s.branchCount := by rw [hbefore, OpenBranch.total, branchCount]
    rw [hroot, Branch.preorder_eq, ← hplace, List.append_assoc, List.getElem?_append_right le_rfl,
      Nat.sub_self]
    rfl

/-- The forks of a skeleton are as many as the opening brackets in the part of the sentence that is
read, and its levels one more than the brackets that are open at most. In the order of the walk,
the forks stand in the order of the brackets. Each of them is what the text behind its bracket draws
by itself, and starts where the turtle is at the bracket, with the radius that the turtle has. -/
theorem interpret_openings {turtle : Turtle α} {sentence : Sentence} {i : Interpretation α}
    (h : interpret turtle sentence = .ok i) :
    i.root.forkCount = sentence.reach.count '[' ∧
    (∃ deepest, IsGreatest
        {d | ∃ u, u <+: sentence.reach ∧ Sentence.depthAfter? 0 u = some d} deepest ∧
      i.root.depth = 1 + deepest) ∧
    ∀ u v, sentence.reach = u ++ '[' :: v → ∃ (s : Reading α) (fork : Branch α)
        (unmatched : Option Nat), (Reading.start turtle).after? u = some s ∧
      i.root.preorder[u.count '[' + 1]? = some fork ∧
      interpret s.current.turtle v = .ok ⟨fork, unmatched⟩ ∧
      fork.points[0]? = some s.current.turtle.position ∧
      fork.radiusBegin = s.current.turtle.radius := by
  obtain ⟨s', hafter, hroot⟩ := Reading.exists_after?_reach (s := .start turtle) h
  change (Reading.start turtle).after? sentence.reach = some s' at hafter
  refine ⟨?_, ⟨_, Sentence.isGreatest_deepest 0 sentence.reach, ?_⟩, ?_⟩
  · have hcount := Reading.branchCount_of_after? hafter
    rw [← s'.forkCount_skeleton, Reading.branchCount_start] at hcount
    rw [hroot]
    omega
  · have hlevels := Reading.levels_of_after? hafter
    rw [Reading.levels_start] at hlevels
    change s'.levels = max 1 (Sentence.deepest 0 sentence.reach + 1) at hlevels
    rw [hroot, Reading.depth_skeleton]
    omega
  · intro u v hsplit
    rw [hsplit, Reading.after?_append] at hafter
    obtain ⟨s, hs, hrest⟩ := Option.bind_eq_some_iff.1 hafter
    obtain ⟨fork, unmatched, hfork, hplace, hposition, hradius⟩ :=
      Reading.exists_fork_of_read (Reading.read_eq_ok hrest 0)
    rw [Reading.branchCount_of_after? hs, Reading.branchCount_start, Nat.add_comm] at hplace
    rw [hroot]
    exact ⟨s, fork, unmatched, hs, hplace, hfork, hposition, hradius⟩

/-- A fork with a fork, and a second one behind it, in a sentence that ends early. -/
theorem interpret_openings_nested :
    ∃ i, interpret (Turtle.start (default : TurtleTraits Float))
        "A[+A[-A]B][^A]]é[".toList = .ok i ∧
      i.root.forkCount = 3 ∧ i.root.depth = 3 ∧
      ∃ (s : Reading Float) (fork : Branch Float) (unmatched : Option Nat),
        (Reading.start (.start default)).after? "A[+A[-A]B]".toList = some s ∧
        i.root.preorder[3]? = some fork ∧
        interpret s.current.turtle "^A]".toList = .ok ⟨fork, unmatched⟩ ∧
        fork.points[0]? = some s.current.turtle.position ∧
        fork.radiusBegin = s.current.turtle.radius := by
  have hreadable : Sentence.Readable "A[+A[-A]B][^A]".toList := by decide +kernel
  have hbalanced : Sentence.Balanced "A[+A[-A]B][^A]".toList := by decide +kernel
  obtain ⟨root, hroot⟩ := Reading.exists_after?_of_balanced hreadable hbalanced
    (Turtle.start (default : TurtleTraits Float))
  have h : interpret (Turtle.start (default : TurtleTraits Float))
      ("A[+A[-A]B][^A]".toList ++ "]é[".toList) = .ok ⟨root.close, some 14⟩ :=
    Reading.read_append hroot 0 "]é[".toList
  obtain ⟨hcount, ⟨deepest, hdeepest, hdepth⟩, hforks⟩ := interpret_openings h
  have htwo : deepest = 2 := hdeepest.unique (Sentence.isGreatest_deepest 0 _)
  refine ⟨_, h, hcount, by rw [hdepth, htwo], ?_⟩
  exact hforks "A[+A[-A]B]".toList "^A]".toList (by decide +kernel)

end ProceduralTree
