import ProceduralTree.Proofs.Skeleton.Reading
import ProceduralTree.Scalar.Binary64

/-!
# Siblings do not see each other

What stands between two matching brackets draws a fork and leaves no other trace: without the
brackets and all between them, the same turtle draws the same tree without that fork. The fork is
what the text between the brackets draws by itself when the turtle starts where the bracket opens.

## Main definitions

* `Branch.Inserted` — two trees of which the second has one more fork, at a given address.
* `Reading.address` — the address of the next fork of the current branch.

## Main statements

* `Reading.exists_read_of_addFork` — a fork of an open branch turns up in the finished tree, and
  nothing else depends on it.
* `interpret_eq_ok_of_fork` — sentences with and without a fork.
-/

namespace ProceduralTree

variable {α : Type}

/-- The second tree is the first with one more fork. The address counts the forks to be passed over
at each branch on the way there. -/
inductive Branch.Inserted (fork : Branch α) : List Nat → Branch α → Branch α → Prop
  | here {points : Array (Vec3 α)} {radiusBegin radiusEnd : α} (before after : List (Branch α)) :
    Inserted fork [before.length] ⟨points, before ++ after, radiusBegin, radiusEnd⟩
      ⟨points, before ++ fork :: after, radiusBegin, radiusEnd⟩
  | deeper {points : Array (Vec3 α)} {radiusBegin radiusEnd : α} {address : List Nat}
    {b b' : Branch α} (before after : List (Branch α)) (inner : Inserted fork address b b') :
    Inserted fork (before.length :: address) ⟨points, before ++ b :: after, radiusBegin, radiusEnd⟩
      ⟨points, before ++ b' :: after, radiusBegin, radiusEnd⟩

/-- The address of a place within a new fork of the innermost of some nested branches. -/
def addressIn (outer : List (OpenBranch α)) (inner : List Nat) : List Nat :=
  outer.foldl (fun address parent => parent.forks.length :: address) inner

/-- The address of the next fork of the current branch. -/
def Reading.address (s : Reading α) : List Nat := addressIn s.outer [s.current.forks.length]

namespace OpenBranch

variable {limit : Nat}

theorem inserted_finish (b : OpenBranch α) (fork : Branch α) (level : Level α limit) :
    Branch.Inserted fork [b.forks.length] (b.finish level) ((b.addFork fork).finish level) := by
  rw [addFork_finish, ← List.length_reverse]
  exact .here b.forks.reverse level.forks

theorem inserted_finish_addFork {fork b b' : Branch α} {address : List Nat}
    (h : Branch.Inserted fork address b b') (parent : OpenBranch α) (level : Level α limit) :
    Branch.Inserted fork (parent.forks.length :: address) ((parent.addFork b).finish level)
      ((parent.addFork b').finish level) := by
  rw [addFork_finish, addFork_finish, ← List.length_reverse]
  exact .deeper parent.forks.reverse level.forks h

end OpenBranch

variable [Scalar α]

/-! ## Positions -/

def TurtleError.shift (k : Nat) : TurtleError → TurtleError
  | .unknownSymbol symbol position => .unknownSymbol symbol (position + k)

def Interpretation.shift (k : Nat) (i : Interpretation α) : Interpretation α :=
  { i with unmatched := i.unmatched.map (· + k) }

/-- Positions only appear in errors and at the bracket that ends a reading. -/
theorem Reading.read_add (s : Reading α) (position k : Nat) (rest : Sentence) :
    s.read (position + k) rest =
      ((s.read position rest).map (Interpretation.shift k)).mapError (TurtleError.shift k) := by
  induction rest generalizing s position with
  | nil => rfl
  | cons c rest ih =>
    rw [read_cons_eq, read_cons_eq]
    cases Symbol.ofChar? c with
    | none => rfl
    | some symbol =>
      simp only
      cases s.next? symbol with
      | none => rfl
      | some s' =>
        rw [Nat.add_right_comm]
        exact ih s' (position + 1)

theorem Reading.exists_read_of_read_add {s : Reading α} {position k : Nat} {rest : Sentence}
    {i : Interpretation α} (h : s.read (position + k) rest = .ok i) :
    ∃ j, s.read position rest = .ok j ∧ i = j.shift k := by
  rw [read_add] at h
  cases hread : s.read position rest with
  | error e => simp [hread, Except.map, Except.mapError] at h
  | ok j =>
    rw [hread] at h
    cases h
    exact ⟨j, rfl, rfl⟩

/-! ## Reading on with one fork more -/

/-- Nothing in the rest of a sentence depends on what forks are finished already. -/
theorem exists_resume_of_inserted {fork b b' : Branch α} {address : List Nat}
    (h : Branch.Inserted fork address b b') {outer : List (OpenBranch α)} {ending : Ending}
    {i : Interpretation α} (hresume : resume b' outer ending = .ok i) :
    ∃ j, resume b outer ending = .ok j ∧ j.unmatched = i.unmatched ∧
      Branch.Inserted fork (addressIn outer address) j.root i.root := by
  induction outer generalizing b b' address ending with
  | nil =>
    cases hresume
    exact ⟨_, rfl, rfl, h⟩
  | cons parent outer ih =>
    rw [resume, interpretFrom_eq, bind_eq_ok] at hresume
    obtain ⟨level, hlevel, hresume⟩ := hresume
    obtain ⟨j, hj, hunmatched, hinserted⟩ := ih (parent.inserted_finish_addFork h level) hresume
    refine ⟨j, ?_, hunmatched, hinserted⟩
    rw [resume, interpretFrom_eq, bind_eq_ok]
    exact ⟨level, hlevel, hj⟩

/-- A fork of the current branch turns up in the finished tree, at the address that it has now. The
rest of the tree and the bracket that ends the reading are the same without it. -/
theorem Reading.exists_read_of_addFork {s : Reading α} {fork : Branch α} {position : Nat}
    {rest : Sentence} {i : Interpretation α}
    (h : read ⟨s.current.addFork fork, s.outer⟩ position rest = .ok i) :
    ∃ j, s.read position rest = .ok j ∧ j.unmatched = i.unmatched ∧
      Branch.Inserted fork s.address j.root i.root := by
  rw [read, interpretFrom_eq, bind_eq_ok] at h
  obtain ⟨level, hlevel, hresume⟩ := h
  obtain ⟨j, hj, hj'⟩ :=
    exists_resume_of_inserted (s.current.inserted_finish fork level) hresume
  refine ⟨j, ?_, hj'⟩
  rw [read, interpretFrom_eq, bind_eq_ok]
  exact ⟨level, hlevel, hj⟩

/-! ## Sentences with a fork -/

/-- Matching brackets add to the current branch what the text between them draws by itself, and put
the turtle back. -/
theorem Reading.exists_after?_bracketed {w : Sentence} (hreadable : w.Readable) (hw : w.Balanced)
    (s : Reading α) :
    ∃ fork, interpret s.current.turtle w = .ok ⟨fork, none⟩ ∧
      s.after? ('[' :: (w ++ [']'])) = some ⟨s.current.addFork fork, s.outer⟩ := by
  obtain ⟨root, hroot⟩ := exists_after?_of_balanced hreadable hw s.current.turtle
  refine ⟨root.close, interpret_eq_ok hroot, ?_⟩
  have hopening : s.step? '[' =
      some ((start s.current.turtle).inside (s.current :: s.outer)) := rfl
  rw [after?_cons, hopening, Option.bind_some, after?_append, after?_inside hroot]
  rfl

/-- If a turtle accepts a sentence with a balanced text `w` between brackets, then it accepts the
sentence without them, and the tree is the same but for one fork. That fork has the address which
the part `u` before the brackets leads to, and it is what `w` draws by itself from the turtle that
`u` leads to. -/
theorem interpret_eq_ok_of_fork {turtle : Turtle α} {u w v : Sentence} {i : Interpretation α}
    (hu : u.ClosesOnlyOpened) (hw : w.Balanced)
    (h : interpret turtle (u ++ ('[' :: (w ++ [']']) ++ v)) = .ok i) :
    ∃ (s : Reading α) (fork : Branch α) (j : Interpretation α),
      (Reading.start turtle).after? u = some s ∧
      interpret s.current.turtle w = .ok ⟨fork, none⟩ ∧
      interpret turtle (u ++ v) = .ok j ∧
      Branch.Inserted fork s.address j.root i.root ∧
      i.unmatched = j.unmatched.map (· + (w.length + 2)) := by
  obtain ⟨depth, hdepth⟩ := Option.isSome_iff_exists.1 hu
  change (Reading.start turtle).read 0 _ = .ok i at h
  have hreadable := Reading.readable_of_read_eq_ok h hdepth
  obtain ⟨s, hs, -⟩ := Reading.exists_after? (s := .start turtle) hreadable hdepth
  rw [Reading.read_append hs] at h
  -- The text between the brackets has been passed as well, so it can be read by itself.
  have hreadable' := Reading.readable_of_read_eq_ok h (hw.depthAfter?_bracketed _)
  obtain ⟨fork, hfork, hafter⟩ :=
    Reading.exists_after?_bracketed (fun c hc => hreadable' c (by simp [hc])) hw s
  rw [Reading.read_append hafter] at h
  obtain ⟨i', hi', rfl⟩ := Reading.exists_read_of_read_add h
  obtain ⟨j, hj, hunmatched, hinserted⟩ := Reading.exists_read_of_addFork hi'
  refine ⟨s, fork, j, hs, hfork, ?_, hinserted, ?_⟩
  · exact (Reading.read_append hs 0 v).trans hj
  · simp [Interpretation.shift, hunmatched]

/-- A fork that has a fork itself, inside a third one, in a sentence that ends early. -/
theorem interpret_eq_ok_of_fork_nested :
    Sentence.ClosesOnlyOpened "A+A[-A".toList ∧ Sentence.Balanced "[^A]B".toList ∧
    ∃ i, interpret (Turtle.start (default : TurtleTraits Float))
        ("A+A[-A".toList ++ ('[' :: ("[^A]B".toList ++ [']']) ++ "/A]]A".toList)) = .ok i ∧
      ∃ (s : Reading Float) (fork : Branch Float) (j : Interpretation Float),
        (Reading.start (.start default)).after? "A+A[-A".toList = some s ∧
        interpret s.current.turtle "[^A]B".toList = .ok ⟨fork, none⟩ ∧
        interpret (.start default) ("A+A[-A".toList ++ "/A]]A".toList) = .ok j ∧
        Branch.Inserted fork s.address j.root i.root ∧
        i.unmatched = j.unmatched.map (· + ("[^A]B".toList.length + 2)) := by
  have hu : Sentence.ClosesOnlyOpened "A+A[-A".toList := by decide +kernel
  have hw : Sentence.Balanced "[^A]B".toList := by decide +kernel
  have hreadable : Sentence.Readable
      ("A+A[-A".toList ++ ('[' :: ("[^A]B".toList ++ [']']) ++ "/A]]A".toList)) := by
    decide +kernel
  obtain ⟨i, hi⟩ :=
    Reading.exists_read_eq_ok hreadable (.start (Turtle.start (default : TurtleTraits Float))) 0
  exact ⟨hu, hw, i, hi, interpret_eq_ok_of_fork hu hw hi⟩

end ProceduralTree
