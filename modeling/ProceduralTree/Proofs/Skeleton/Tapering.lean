import Mathlib.Logic.Function.Iterate
import ProceduralTree.Proofs.Scalar.Real
import ProceduralTree.Proofs.Skeleton.Branches

/-!
# Branches grow thinner towards their tips

Every letter makes the turtle thinner, and a closing bracket makes it as thick as it was at the
opening one. The radius at a place of a skeleton therefore tells how many letters there are on the
way there, and letters on forks that are finished do not count.

## Main definitions

* `Turtle.radiusAfter` — the radius after a number of steps.

## Main statements

* `Reading.turtle_of_after?` — the turtle behind a part of a sentence.
* `Turtle.Draws.radiusEnd_eq` — the radius at the end of a level.
* `radii_of_interpret` — all radii of a skeleton.
-/

namespace ProceduralTree

variable {α : Type} [Scalar α]

namespace Turtle

/-- The radius after `k` more steps. -/
def radiusAfter (turtle : Turtle α) (k : Nat) : α :=
  (· * turtle.traits.radiusDecay)^[k] turtle.radius

variable {turtle turtle' : Turtle α}

theorem radiusAfter_advance (turtle : Turtle α) (k : Nat) :
    turtle.advance.radiusAfter k = turtle.radiusAfter (k + 1) := rfl

theorem radiusAfter_rotate (turtle : Turtle α) (t : Turn) (k : Nat) :
    (turtle.rotate t).radiusAfter k = turtle.radiusAfter k := rfl

theorem radiusAfter_add {m : Nat} (htraits : turtle'.traits = turtle.traits)
    (hradius : turtle'.radius = turtle.radiusAfter m) (k : Nat) :
    turtle'.radiusAfter k = turtle.radiusAfter (m + k) := by
  rw [radiusAfter, htraits, hradius, radiusAfter, ← Function.iterate_add_apply, Nat.add_comm]
  rfl

/-! ## One level -/

namespace Draws

variable {limit : Nat} {last : Vec3 α} {sentence : Sentence} {level : Level α limit}

/-- All letters on the level count for the radius at its end. -/
theorem radiusEnd_eq (h : turtle.Draws last sentence level) :
    level.radiusEnd = turtle.radiusAfter (Sentence.own sentence).letters := by
  induction h with
  | sentence | bracket => rfl
  | step hc _ _ ih =>
    rw [Sentence.own_cons_forward hc, Sentence.letters_cons_forward hc, ← radiusAfter_advance, ← ih]
    rfl
  | record hc _ _ _ ih | turn hc _ _ _ ih =>
    rw [Sentence.own_cons_turn hc, Sentence.letters_cons_turn hc, ← radiusAfter_rotate, ← ih]
    rfl
  | fork inside _ _ _ ih =>
    rw [inside.own_opening, ← ih]
    rfl

/-- A fork begins with a radius that the turtle has on the level. -/
theorem exists_radiusBegin_eq (h : turtle.Draws last sentence level) :
    ∀ fork ∈ level.forks, ∃ k ≤ (Sentence.own sentence).letters,
      fork.radiusBegin = turtle.radiusAfter k := by
  induction h with
  | sentence | bracket => exact List.forall_mem_nil _
  | step hc _ _ ih =>
    rw [Sentence.own_cons_forward hc, Sentence.letters_cons_forward hc]
    intro fork hfork
    obtain ⟨k, hk, hradius⟩ := ih fork hfork
    exact ⟨k + 1, Nat.succ_le_succ hk, hradius⟩
  | record hc _ _ _ ih | turn hc _ _ _ ih =>
    rw [Sentence.own_cons_turn hc, Sentence.letters_cons_turn hc]
    exact ih
  | fork inside _ _ _ ih =>
    rw [inside.own_opening]
    exact List.forall_mem_cons.2 ⟨⟨0, Nat.zero_le _, rfl⟩, ih⟩

end Draws

end Turtle

/-! ## The way to a bracket -/

theorem OpenBranch.turtle_rotate (b : OpenBranch α) (t : Turn) :
    (b.rotate t).turtle = b.turtle.rotate t := by
  rw [rotate, record_eq]
  split <;> rfl

namespace Reading

variable {s s' : Reading α} {c : Char} {u : Sentence} {turtle' : Turtle α}

/-- The turtles of the open branches, innermost first. -/
def turtles (s : Reading α) : List (Turtle α) := (s.current :: s.outer).map OpenBranch.turtle

/-- A character that is no bracket changes the turtle of the current level only, which the text
behind leads on from if it stays on that level. -/
theorem turtle_of_stay {current current' : OpenBranch α} {outer : List (OpenBranch α)}
    (hc : ¬Sentence.IsBracket c)
    (hturtle : (Reading.mk current' outer).turtles[u.closings]? = some turtle')
    (htraits : current'.turtle.traits = current.turtle.traits)
    (hradius : current'.turtle.radiusAfter u.trail.letters =
      current.turtle.radiusAfter (Sentence.letters (c :: u.trail))) :
    ∃ turtle, (Reading.mk current outer).turtles[Sentence.closings (c :: u)]? = some turtle ∧
      turtle'.traits = turtle.traits ∧
      turtle'.radiusAfter u.trail.letters =
        turtle.radiusAfter (Sentence.trail (c :: u)).letters := by
  rw [Sentence.closings_cons hc]
  cases hopen : u.closings with
  | zero =>
    rw [hopen] at hturtle
    cases hturtle
    rw [Sentence.trail_cons_of_closings_eq_zero hc hopen]
    exact ⟨current.turtle, rfl, htraits, hradius⟩
  | succ n =>
    rw [hopen] at hturtle
    rw [Sentence.trail_cons_of_closings_ne_zero (by simp [hopen])]
    exact ⟨turtle', hturtle, rfl, rfl⟩

/-- One more character, in front of a text that leads on: the turtle that the text leads on from is
the one of the same level before the character, and a letter on that level has made it thinner. -/
theorem turtle_of_step? (h : s.step? c = some s')
    (hturtle : s'.turtles[u.closings]? = some turtle') :
    ∃ turtle, s.turtles[Sentence.closings (c :: u)]? = some turtle ∧
      turtle'.traits = turtle.traits ∧
      turtle'.radiusAfter u.trail.letters =
        turtle.radiusAfter (Sentence.trail (c :: u)).letters := by
  obtain ⟨symbol, hc, hnext⟩ := Option.bind_eq_some_iff.1 h
  obtain ⟨current, outer⟩ := s
  cases symbol with
  | forward =>
    cases hnext
    refine turtle_of_stay (Symbol.not_isBracket_of_ofChar?_eq_forward hc) hturtle rfl ?_
    rw [Sentence.letters_cons_forward hc]
    rfl
  | turn t =>
    cases hnext
    have hrotate := current.turtle_rotate t
    refine turtle_of_stay (Symbol.not_isBracket_of_ofChar?_eq_turn hc) hturtle ?_ ?_
    · rw [hrotate]
      rfl
    · rw [hrotate, Sentence.letters_cons_turn hc]
      rfl
  | openFork =>
    cases hnext
    obtain rfl := Symbol.ofChar?_eq_openFork_iff.1 hc
    rw [Sentence.trail_cons_of_isBracket (.inl rfl), Sentence.closings, if_pos rfl]
    refine ⟨turtle', ?_, rfl, rfl⟩
    cases hopen : u.closings <;> rw [hopen] at hturtle <;> exact hturtle
  | closeFork =>
    obtain rfl := Symbol.ofChar?_eq_closeFork_iff.1 hc
    rw [Sentence.trail_cons_of_isBracket (.inr rfl)]
    cases outer with
    | nil => cases hnext
    | cons parent outer =>
      cases hnext
      exact ⟨turtle', hturtle, rfl, rfl⟩

/-- The turtle behind a text is the one of some level before it, thinner by the letters that the
text has on that level and on the levels that it leaves open. -/
theorem turtle_of_after? (h : s.after? u = some s') :
    ∃ turtle, s.turtles[u.closings]? = some turtle ∧
      s'.current.turtle.traits = turtle.traits ∧
      s'.current.turtle.radius = turtle.radiusAfter u.trail.letters := by
  induction u generalizing s with
  | nil =>
    cases h
    exact ⟨_, rfl, rfl, rfl⟩
  | cons c u ih =>
    obtain ⟨between, hstep, hafter⟩ := Option.bind_eq_some_iff.1 h
    obtain ⟨turtle', hturtle', htraits', hradius'⟩ := ih hafter
    obtain ⟨turtle, hturtle, htraits, hradius⟩ := turtle_of_step? hstep hturtle'
    exact ⟨turtle, hturtle, htraits'.trans htraits, hradius'.trans hradius⟩

/-- From the start of a sentence, the letters on all open levels count. -/
theorem turtle_of_after?_start {turtle : Turtle α} {s : Reading α}
    (h : (start turtle).after? u = some s) :
    s.current.turtle.traits = turtle.traits ∧
      s.current.turtle.radius = turtle.radiusAfter u.trail.letters := by
  obtain ⟨turtle', hturtle, htraits, hradius⟩ := turtle_of_after? h
  obtain rfl : turtle = turtle' := by
    cases hopen : u.closings <;> rw [hopen] at hturtle <;> cases hturtle
    rfl
  exact ⟨htraits, hradius⟩

end Reading

/-! ## Skeletons -/

/-- Without rounding, and with a decay that is no growth, the radius does not grow. -/
theorem Turtle.radiusAfter_antitone {turtle : Turtle ℝ} (hradius : 0 ≤ turtle.radius)
    (hdecay : 0 ≤ turtle.traits.radiusDecay) (hone : turtle.traits.radiusDecay ≤ 1) :
    Antitone turtle.radiusAfter := by
  have heq (k : Nat) : turtle.radiusAfter k = turtle.radius * turtle.traits.radiusDecay ^ k :=
    congrFun (mul_right_iterate turtle.traits.radiusDecay k) turtle.radius
  intro j k hjk
  rw [heq, heq]
  exact mul_le_mul_of_nonneg_left (pow_le_pow_of_le_one hdecay hone hjk) hradius

/-- The radii of branch `n`, which begins behind the opening bracket `n`. -/
theorem radii_of_getElem? {turtle : Turtle α} {sentence : Sentence} {i : Interpretation α} {n : Nat}
    {b : Branch α} (h : interpret turtle sentence = .ok i) (hb : i.root.preorder[n]? = some b) :
    b.radiusBegin = turtle.radiusAfter (sentence.reach.upTo n).trail.letters ∧
      b.radiusEnd = turtle.radiusAfter
        ((sentence.reach.upTo n).trail.letters + (sentence.reach.behind n).own.letters) := by
  obtain ⟨s, limit, level, hs, hdraws, rfl⟩ := exists_draws_of_getElem? h hb
  obtain ⟨htraits, hradius⟩ := Reading.turtle_of_after?_start hs
  refine ⟨hradius, ?_⟩
  rw [← Turtle.radiusAfter_add htraits hradius]
  exact hdraws.radiusEnd_eq

/-- The radius at either end of a branch is the first radius after a number of steps: of all letters
on the levels around the branch up to its bracket, and at the far end also of those on its own
level. Without rounding, radii do not grow: neither along a branch, nor from a branch to its forks,
nor from a fork to the far end of the branch. -/
theorem radii_of_interpret (sentence : Sentence) :
    (∀ {α : Type} [Scalar α] (turtle : Turtle α) (i : Interpretation α),
      interpret turtle sentence = .ok i → ∀ n b, i.root.preorder[n]? = some b →
        b.radiusBegin = turtle.radiusAfter (sentence.reach.upTo n).trail.letters ∧
        b.radiusEnd = turtle.radiusAfter
          ((sentence.reach.upTo n).trail.letters + (sentence.reach.behind n).own.letters)) ∧
    ∀ (turtle : Turtle ℝ) (i : Interpretation ℝ), 0 ≤ turtle.radius →
      0 ≤ turtle.traits.radiusDecay → turtle.traits.radiusDecay ≤ 1 →
      interpret turtle sentence = .ok i → ∀ b ∈ i.root.preorder, b.radiusEnd ≤ b.radiusBegin ∧
        ∀ fork ∈ b.forks, b.radiusEnd ≤ fork.radiusBegin ∧ fork.radiusBegin ≤ b.radiusBegin := by
  refine ⟨fun turtle i h n b hb => radii_of_getElem? h hb, ?_⟩
  intro turtle i hradius hdecay hone h b hb
  have hanti := Turtle.radiusAfter_antitone hradius hdecay hone
  obtain ⟨n, hn⟩ := List.getElem?_of_mem hb
  obtain ⟨hbegin, hend⟩ := radii_of_getElem? h hn
  rw [hbegin, hend]
  refine ⟨hanti (Nat.le_add_right _ _), fun fork hfork => ?_⟩
  obtain ⟨s, limit, level, hs, hdraws, rfl⟩ := exists_draws_of_getElem? h hn
  obtain ⟨htraits, hturtle⟩ := Reading.turtle_of_after?_start hs
  obtain ⟨k, hk, hfork⟩ := hdraws.exists_radiusBegin_eq fork hfork
  rw [hfork, Turtle.radiusAfter_add htraits hturtle]
  exact ⟨hanti (Nat.add_le_add_left hk _), hanti (Nat.le_add_right _ _)⟩

/-- A turtle that gets half as thick with every step. -/
noncomputable def Turtle.halving : Turtle ℝ :=
  .start { (default : TurtleTraits ℝ) with radiusDecay := Scalar.ratio 1 2 }

/-- The second fork, behind a finished one and with a fork of its own, in a sentence that leaves it
open. -/
theorem radii_of_interpret_halving :
    (0 ≤ Turtle.halving.radius ∧ 0 ≤ Turtle.halving.traits.radiusDecay ∧
      Turtle.halving.traits.radiusDecay ≤ 1) ∧
    ∃ i, interpret Turtle.halving "A[B]A[-A[A]BB".toList = .ok i ∧
      (∃ b, i.root.preorder[2]? = some b ∧ b.radiusBegin = Turtle.halving.radiusAfter 2 ∧
        b.radiusEnd = Turtle.halving.radiusAfter 5) ∧
      ∀ b ∈ i.root.preorder, b.radiusEnd ≤ b.radiusBegin ∧
        ∀ fork ∈ b.forks, b.radiusEnd ≤ fork.radiusBegin ∧ fork.radiusBegin ≤ b.radiusBegin := by
  have hradius : 0 ≤ Turtle.halving.radius := by
    norm_num [Turtle.halving, Turtle.start, default]
  have hdecay : 0 ≤ Turtle.halving.traits.radiusDecay := by
    norm_num [Turtle.halving, Turtle.start]
  have hone : Turtle.halving.traits.radiusDecay ≤ 1 := by
    norm_num [Turtle.halving, Turtle.start]
  have hreadable : Sentence.Readable "A[B]A[-A[A]BB".toList := by decide +kernel
  obtain ⟨i, hi⟩ := Reading.exists_read_eq_ok hreadable (.start Turtle.halving) 0
  obtain ⟨s, hs, hroot⟩ := Reading.exists_after?_reach hi
  have hlength : 2 < i.root.preorder.length := by
    rw [hroot, length_preorder_of_after? hs]
    decide +kernel
  obtain ⟨hradii, htaper⟩ := radii_of_interpret "A[B]A[-A[A]BB".toList
  exact ⟨⟨hradius, hdecay, hone⟩, i, hi,
    ⟨_, List.getElem?_eq_getElem hlength, hradii _ i hi 2 _ (List.getElem?_eq_getElem hlength)⟩,
    htaper _ i hradius hdecay hone hi⟩

end ProceduralTree
