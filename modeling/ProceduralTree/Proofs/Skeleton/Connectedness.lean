import ProceduralTree.Proofs.Skeleton.Drawing
import ProceduralTree.Proofs.Skeleton.Traversal
import ProceduralTree.Proofs.Space.Polyline

/-!
# Skeletons are connected

A branch records no point where a fork begins, and it may pass over its own position when the turtle
has hardly moved. A fork begins near its parent all the same. Between two turns the turtle runs
straight ahead, from a place near the last recorded point to a place that is recorded next or is
near the last point as well; all forks of that run begin in between.

Arithmetic is exact here, and the turtle takes no steps back.

## Main definitions

* `Turtle.RunsFrom` — where the turtle's straight run began.
* `Branch.Connected` — every fork of a tree begins near its parent.
* `Level.Completes` — what has become of a run when its level is finished.

## Main statements

* `Turtle.Draws.completes` — all that the turtle passes on its run is near the finished polyline.
* `exists_near_parent_of_interpret` — skeletons are connected.
-/

namespace ProceduralTree

open Vec3

namespace Branch

/-- The points of a branch with the segments between them. -/
def polyline (b : Branch ℝ) : Set (Vec3 ℝ) := Vec3.polyline b.points.toList

/-- The first point of the branch is near the set. -/
def BeginsNear (b : Branch ℝ) (s : Set (Vec3 ℝ)) : Prop := ∃ p, b.points[0]? = some p ∧ p.IsNear s

/-- Every fork, on whatever level, begins near the branch that it forks off. -/
def Connected (b : Branch ℝ) : Prop :=
  ∀ parent ∈ b.preorder, ∀ fork ∈ parent.forks, fork.BeginsNear parent.polyline

theorem connected_iff {b : Branch ℝ} :
    b.Connected ↔ ∀ fork ∈ b.forks, fork.BeginsNear b.polyline ∧ fork.Connected := by
  simp only [Connected, preorder_eq b, List.forall_mem_cons, List.mem_flatMap]
  grind

end Branch

/-- Every fork of a level begins near the polyline that the level draws on from `last`. -/
def Level.Connected {limit : Nat} (last : Vec3 ℝ) (level : Level ℝ limit) : Prop :=
  ∀ fork ∈ level.forks, fork.BeginsNear (Vec3.polyline (last :: level.points)) ∧ fork.Connected

theorem Level.connected_branch {limit : Nat} {turtle : Turtle ℝ} {level : Level ℝ limit} :
    (level.branch turtle).Connected ↔ level.Connected turtle.position :=
  Branch.connected_iff

/-! ## Straight runs -/

/-- Since its last turn, at `origin`, the turtle has run straight ahead. It was near the point
recorded last when it turned. -/
structure Turtle.RunsFrom (turtle : Turtle ℝ) (origin last : Vec3 ℝ) : Prop where
  near : (origin - last).norm ≤ Scalar.tolerance
  straight : ∃ length : ℝ, 0 ≤ length ∧ turtle.position = origin + length • turtle.heading
  stepLength : 0 ≤ turtle.stepLength
  lengthDecay : 0 ≤ turtle.traits.lengthDecay

namespace Turtle.RunsFrom

variable {turtle : Turtle ℝ} {origin last : Vec3 ℝ}

/-- A branch begins with a run from its first point. -/
theorem start (hstep : 0 ≤ turtle.stepLength) (hdecay : 0 ≤ turtle.traits.lengthDecay) :
    turtle.RunsFrom turtle.position turtle.position where
  near := norm_sub_self_le _
  straight := ⟨0, le_rfl, by ext <;> simp⟩
  stepLength := hstep
  lengthDecay := hdecay

theorem position_advance {length : ℝ}
    (h : turtle.position = origin + length • turtle.heading) :
    turtle.advance.position = origin + (length + turtle.stepLength) • turtle.heading := by
  rw [Turtle.advance, h]
  ext <;>
  · simp
    ring

theorem advance (h : turtle.RunsFrom origin last) : turtle.advance.RunsFrom origin last where
  near := h.near
  straight := by
    obtain ⟨length, hlength, hposition⟩ := h.straight
    exact ⟨_, add_nonneg hlength h.stepLength, position_advance hposition⟩
  stepLength := mul_nonneg h.stepLength h.lengthDecay
  lengthDecay := h.lengthDecay

/-- A step leads on from the run so far. -/
theorem position_mem_segment (h : turtle.RunsFrom origin last) :
    turtle.position ∈ segment origin turtle.advance.position := by
  obtain ⟨length, hlength, hposition⟩ := h.straight
  rw [position_advance hposition, hposition]
  exact add_smul_mem_segment origin _ hlength (le_add_of_nonneg_right h.stepLength)

/-- A new run begins at a turn. -/
theorem rotate (h : turtle.RunsFrom origin last) (t : Turn) {last' : Vec3 ℝ}
    (hlast : (turtle.position - last').norm ≤ Scalar.tolerance) :
    (turtle.rotate t).RunsFrom turtle.position last' where
  near := hlast
  straight := ⟨0, le_rfl, by ext <;> simp [Turtle.rotate]⟩
  stepLength := h.stepLength
  lengthDecay := h.lengthDecay

/-- A run that is recorded where it ends is near the segment that ends there. -/
theorem isNear_of_mem (h : turtle.RunsFrom origin last) {x : Vec3 ℝ}
    (hx : x ∈ segment origin turtle.position) (rest : List (Vec3 ℝ)) :
    x.IsNear (Vec3.polyline (last :: turtle.position :: rest)) :=
  (isNear_segment h.near hx).mono Set.subset_union_left

/-- A run that ends where it began, or hardly farther, is near the point recorded last. -/
theorem isNear_of_not_hasLeft (h : turtle.RunsFrom origin last) (hleft : ¬turtle.HasLeft last)
    {x : Vec3 ℝ} (hx : x ∈ segment origin turtle.position) (rest : List (Vec3 ℝ)) :
    x.IsNear (Vec3.polyline (last :: rest)) :=
  ⟨last, mem_polyline_cons last rest, norm_sub_le_of_mem_segment h.near (not_lt.1 hleft) hx⟩

end Turtle.RunsFrom

/-! ## Levels -/

/-- A finished level is near all that the turtle has passed on its run up to now, and connected with
its forks. -/
structure Level.Completes {limit : Nat} (level : Level ℝ limit) (turtle : Turtle ℝ)
    (origin last : Vec3 ℝ) : Prop where
  near : ∀ x ∈ segment origin turtle.position, x.IsNear (Vec3.polyline (last :: level.points))
  connected : level.Connected last

namespace Level

variable {limit : Nat} {level : Level ℝ limit} {turtle : Turtle ℝ} {origin last : Vec3 ℝ}

theorem completes_close (hrun : turtle.RunsFrom origin last) (ending : Ending) :
    (close turtle last ending).Completes turtle origin last where
  near := by
    intro x hx
    rw [close]
    by_cases hleft : turtle.HasLeft last
    · rw [if_pos hleft]
      exact hrun.isNear_of_mem hx []
    · exact hrun.isNear_of_not_hasLeft hleft hx _
  connected := by simp [close, Connected]

namespace Completes

theorem weaken {limit' : Nat} (h : level.Completes turtle origin last) (hlimit : limit ≤ limit') :
    (level.weaken hlimit).Completes turtle origin last :=
  ⟨h.near, h.connected⟩

theorem of_advance (hrun : turtle.RunsFrom origin last)
    (h : level.Completes turtle.advance origin last) : level.Completes turtle origin last where
  near x hx := h.near x (segment_subset hrun.position_mem_segment hx)
  connected := h.connected

/-- A turn ends the run at a point that it records. -/
theorem of_rotate_of_record (hrun : turtle.RunsFrom origin last) {t : Turn}
    (h : level.Completes (turtle.rotate t) turtle.position turtle.position) :
    (level.addPoint turtle.position).Completes turtle origin last where
  near _ hx := hrun.isNear_of_mem hx level.points
  connected := by
    intro fork hfork
    obtain ⟨⟨p, hp, hnear⟩, hconnected⟩ := h.connected fork hfork
    exact ⟨⟨p, hp, hnear.mono Set.subset_union_right⟩, hconnected⟩

/-- A turn near the point recorded last ends the run there. -/
theorem of_rotate_of_not_hasLeft (hrun : turtle.RunsFrom origin last)
    (hleft : ¬turtle.HasLeft last) {t : Turn}
    (h : level.Completes (turtle.rotate t) turtle.position last) :
    level.Completes turtle origin last where
  near _ hx := hrun.isNear_of_not_hasLeft hleft hx level.points
  connected := h.connected

/-- A fork begins on the run, which goes on behind it. -/
theorem addFork {limit' : Nat} {fork : Level ℝ limit'}
    (hfork : fork.Completes turtle turtle.position turtle.position)
    (h : level.Completes turtle origin last) :
    (level.addFork (fork.branch turtle)).Completes turtle origin last where
  near := h.near
  connected := by
    refine List.forall_mem_cons.2 ⟨⟨?_, connected_branch.2 hfork.connected⟩, h.connected⟩
    exact ⟨turtle.position, rfl, h.near _ (right_mem_segment _ _)⟩

end Completes

end Level

/-- Whatever a level says, it completes the run that the turtle is on. -/
theorem Turtle.Draws.completes {limit : Nat} {turtle : Turtle ℝ} {origin last : Vec3 ℝ}
    {sentence : Sentence} {level : Level ℝ limit} (h : turtle.Draws last sentence level)
    (hrun : turtle.RunsFrom origin last) : level.Completes turtle origin last := by
  induction h generalizing origin with
  | sentence => exact Level.completes_close hrun .sentence
  | bracket _ _ h => exact (Level.completes_close hrun (.bracket _ _)).weaken h
  | step _ _ h ih => exact ((ih hrun.advance).of_advance hrun).weaken h
  | record _ _ _ h ih =>
    exact ((ih (hrun.rotate _ (norm_sub_self_le _))).of_rotate_of_record hrun).weaken h
  | turn _ stayed _ h ih =>
    exact ((ih (hrun.rotate _ (not_lt.1 stayed))).of_rotate_of_not_hasLeft hrun stayed).weaken h
  | fork _ _ h ihInside ih =>
    have hfork := ihInside (.start hrun.stepLength hrun.lengthDecay)
    exact (hfork.addFork (ih hrun)).weaken h

theorem readLevel_completes {turtle : Turtle ℝ} {origin last : Vec3 ℝ}
    (hrun : turtle.RunsFrom origin last) (position : Nat) (sentence : Sentence)
    {level : Level ℝ sentence.length} (h : readLevel turtle last position sentence = .ok level) :
    level.Completes turtle origin last :=
  (Turtle.draws_of_readLevel h).completes hrun

/-- In exact arithmetic, every fork of a skeleton begins near the polyline of the branch that it
forks off, however deep it is, if the turtle takes no steps back. -/
theorem exists_near_parent_of_interpret {turtle : Turtle ℝ} (hstep : 0 ≤ turtle.stepLength)
    (hdecay : 0 ≤ turtle.traits.lengthDecay) {sentence : Sentence} {i : Interpretation ℝ}
    (h : interpret turtle sentence = .ok i) :
    ∀ parent ∈ i.root.preorder, ∀ fork ∈ parent.forks, ∃ p, fork.points[0]? = some p ∧
      ∃ q ∈ parent.polyline, (p - q).norm ≤ Scalar.tolerance := by
  rw [interpret, interpretFrom_eq, bind_eq_ok] at h
  obtain ⟨level, hlevel, hresume⟩ := h
  have hcompletes := readLevel_completes (.start hstep hdecay) 0 sentence hlevel
  cases hresume
  exact Level.connected_branch.2 hcompletes.connected

/-- Forks in the middle of a straight run, where the parent records no point. -/
theorem exists_near_parent_of_interpret_default :
    0 ≤ (Turtle.start (default : TurtleTraits ℝ)).stepLength ∧
    0 ≤ (Turtle.start (default : TurtleTraits ℝ)).traits.lengthDecay ∧
    ∃ i, interpret (Turtle.start (default : TurtleTraits ℝ)) "AA[+A[^A]A]A".toList = .ok i ∧
      ∀ parent ∈ i.root.preorder, ∀ fork ∈ parent.forks, ∃ p, fork.points[0]? = some p ∧
        ∃ q ∈ parent.polyline, (p - q).norm ≤ Scalar.tolerance := by
  have hone : 0 ≤ (1 : ℝ) := zero_le_one
  have hreadable : Sentence.Readable "AA[+A[^A]A]A".toList := by decide +kernel
  obtain ⟨i, hi⟩ :=
    Reading.exists_read_eq_ok hreadable (.start (Turtle.start (default : TurtleTraits ℝ))) 0
  exact ⟨hone, hone, i, hi, exists_near_parent_of_interpret hone hone hi⟩

end ProceduralTree
