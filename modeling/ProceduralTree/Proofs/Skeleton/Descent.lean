import ProceduralTree.Proofs.Success
import ProceduralTree.Skeleton.Interpretation

/-!
# Interpretation by recursive descent

The grammar of sentences suggests to read a fork by recursion: an opening bracket starts a level of
its own, which ends at the matching bracket or at the end of the sentence. `interpret` does without
recursion and keeps the enclosing branches on a stack. Both readings agree on every sentence,
balanced or not.

## Main definitions

* `Symbol.meaning?` — the meaning of a character by a table.
* `Level` — what the symbols of one level of brackets draw, and where the level ends.
* `readLevel`, `readTree` — the reading by recursive descent.

## Main statements

* `interpretFrom_eq` — with any branches on the stack, the reading of the current level comes first.
* `interpret_eq_readTree` — the two readings agree.
-/

namespace ProceduralTree

namespace Symbol

/-- The symbols that are no letters. -/
def marks : List (Char × Symbol) :=
  [('+', .turn ⟨.yaw, false⟩), ('-', .turn ⟨.yaw, true⟩), ('/', .turn ⟨.roll, false⟩),
    ('\\', .turn ⟨.roll, true⟩), ('^', .turn ⟨.pitch, false⟩), ('_', .turn ⟨.pitch, true⟩),
    ('[', .openFork), (']', .closeFork)]

/-- What a character says: all letters are steps, and the marks are as listed. -/
def meaning? (c : Char) : Option Symbol :=
  if 'A' ≤ c ∧ c ≤ 'Z' then some .forward else marks.lookup c

theorem ofChar?_eq_meaning? (c : Char) : ofChar? c = meaning? c := by
  unfold ofChar? meaning?
  split
  case h_9 =>
    have hlookup : marks.lookup c = none := by simp_all [List.lookup_eq_none_iff, marks]
    rw [hlookup]
  all_goals rfl

end Symbol

/-- Where a level ends. -/
inductive Ending where
  | sentence
  /-- At a closing bracket, with more of the sentence behind it. -/
  | bracket (position : Nat) (rest : Sentence)

namespace Ending

/-- What is left to be read. -/
def rest : Ending → Sentence
  | sentence => []
  | bracket _ rest => rest

/-- The position of the first symbol that is left, if there is one. -/
def next : Ending → Nat
  | sentence => 0
  | bracket position _ => position + 1

/-- The position of the closing bracket. -/
def bracket? : Ending → Option Nat
  | sentence => none
  | bracket position _ => some position

end Ending

/-- What the symbols of a level draw. At most `limit` symbols are left behind it. -/
structure Level (α : Type) (limit : Nat) where
  /-- The points behind those that are recorded already. -/
  points : List (Vec3 α)
  forks : List (Branch α)
  radiusEnd : α
  ending : Ending
  rest_le : ending.rest.length ≤ limit

variable {α : Type}

section Reading

variable [Scalar α]

/-- Whether the turtle has moved away from the point recorded last. -/
def Turtle.HasLeft (turtle : Turtle α) (last : Vec3 α) : Prop :=
  Scalar.tolerance < (turtle.position - last).norm

instance (turtle : Turtle α) (last : Vec3 α) : Decidable (turtle.HasLeft last) :=
  inferInstanceAs (Decidable (_ < _))

namespace Level

variable {limit limit' : Nat}

/-- The end of a level. -/
def close (turtle : Turtle α) (last : Vec3 α) (ending : Ending) : Level α ending.rest.length where
  points := if turtle.HasLeft last then [turtle.position] else []
  forks := []
  radiusEnd := turtle.radius
  ending := ending
  rest_le := Nat.le_refl _

def weaken (level : Level α limit) (h : limit ≤ limit') : Level α limit' :=
  { level with rest_le := Nat.le_trans level.rest_le h }

/-- The level with a point before all others. -/
def addPoint (p : Vec3 α) (level : Level α limit) : Level α limit :=
  { level with points := p :: level.points }

/-- The level with a fork before all others. -/
def addFork (fork : Branch α) (level : Level α limit) : Level α limit :=
  { level with forks := fork :: level.forks }

/-- The branch that a level draws when the turtle enters it. -/
def branch (turtle : Turtle α) (level : Level α limit) : Branch α where
  points := (turtle.position :: level.points).toArray
  forks := level.forks
  radiusBegin := turtle.radius
  radiusEnd := level.radiusEnd

end Level

/-- Reads a level to its end, where `last` is the point recorded last. A fork is read with a turtle
of its own; behind it the level goes on with the turtle as it was. -/
def readLevel (turtle : Turtle α) (last : Vec3 α) (position : Nat) :
    (sentence : Sentence) → Except TurtleError (Level α sentence.length)
  | [] => .ok (.close turtle last .sentence)
  | c :: rest =>
    match Symbol.meaning? c with
    | none => .error (.unknownSymbol c position)
    | some .forward => do
      let level ← readLevel turtle.advance last (position + 1) rest
      return level.weaken (Nat.le_succ _)
    | some (.turn t) =>
      if turtle.HasLeft last then do
        let level ← readLevel (turtle.rotate t) turtle.position (position + 1) rest
        return (level.addPoint turtle.position).weaken (Nat.le_succ _)
      else do
        let level ← readLevel (turtle.rotate t) last (position + 1) rest
        return level.weaken (Nat.le_succ _)
    | some .openFork => do
      let fork ← readLevel turtle turtle.position (position + 1) rest
      let level ← readLevel turtle last fork.ending.next fork.ending.rest
      return (level.addFork (fork.branch turtle)).weaken (Nat.le_succ_of_le fork.rest_le)
    | some .closeFork =>
      .ok ((Level.close turtle last (.bracket position rest)).weaken (Nat.le_succ _))
termination_by sentence => sentence.length
decreasing_by
  all_goals simp only [List.length_cons]
  all_goals first | omega | exact Nat.lt_succ_of_le fork.rest_le

/-- Reads a sentence as one level. A closing bracket that no opening bracket belongs to ends that
level, and with it the reading. -/
def readTree (turtle : Turtle α) (sentence : Sentence) : Except TurtleError (Interpretation α) := do
  let level ← readLevel turtle turtle.position 0 sentence
  return ⟨level.branch turtle, level.ending.bracket?⟩

end Reading

/-! ## Both readings agree -/

namespace OpenBranch

variable {limit : Nat}

/-- An open branch with the rest of its level. -/
def finish (b : OpenBranch α) (level : Level α limit) : Branch α where
  points := (b.earlier.reverse ++ b.last :: level.points).toArray
  forks := b.forks.reverse ++ level.forks
  radiusBegin := b.radiusBegin
  radiusEnd := level.radiusEnd

theorem finish_start (turtle : Turtle α) (level : Level α limit) :
    (start turtle).finish level = level.branch turtle := rfl

theorem addFork_finish (b : OpenBranch α) (fork : Branch α) (level : Level α limit) :
    (b.addFork fork).finish level = b.finish (level.addFork fork) := by
  simp [finish, addFork, Level.addFork]

theorem finish_addPoint (b : OpenBranch α) (turtle : Turtle α) (p : Vec3 α)
    (level : Level α limit) :
    finish { b with last := p, earlier := b.last :: b.earlier, turtle } level =
      b.finish (level.addPoint p) := by
  simp [finish, Level.addPoint]

variable [Scalar α]

theorem record_eq (b : OpenBranch α) :
    b.record =
      if b.turtle.HasLeft b.last then
        { b with last := b.turtle.position, earlier := b.last :: b.earlier }
      else b := rfl

theorem finish_close (b : OpenBranch α) (ending : Ending) :
    b.finish (.close b.turtle b.last ending) = b.close := by
  by_cases h : b.turtle.HasLeft b.last <;> simp [finish, Level.close, close, record_eq, h]

/-- A turn after a move records the position. -/
theorem rotate_of_hasLeft {b : OpenBranch α} (h : b.turtle.HasLeft b.last) (t : Turn) :
    b.rotate t = { b with
      last := b.turtle.position
      earlier := b.last :: b.earlier
      turtle := b.turtle.rotate t } := by
  rw [rotate, record_eq, if_pos h]

theorem rotate_of_not_hasLeft {b : OpenBranch α} (h : ¬b.turtle.HasLeft b.last) (t : Turn) :
    b.rotate t = { b with turtle := b.turtle.rotate t } := by
  rw [rotate, record_eq, if_neg h]

end OpenBranch

variable [Scalar α]

/-- How the reading goes on behind a finished branch inside the branches `parents`. -/
def resume (fork : Branch α) : List (OpenBranch α) → Ending → Except TurtleError (Interpretation α)
  | [], ending => .ok ⟨fork, ending.bracket?⟩
  | parent :: parents, ending =>
    interpretFrom ending.next (parent.addFork fork) parents ending.rest

/-- At the end of the sentence, all branches are closed. -/
theorem resume_sentence (fork : Branch α) (parents : List (OpenBranch α)) :
    resume fork parents .sentence = .ok ⟨closeAll fork parents, none⟩ := by
  cases parents <;> rfl

theorem interpretFrom_closeFork {c : Char} (hc : Symbol.ofChar? c = some .closeFork)
    (position : Nat) (current : OpenBranch α) (parents : List (OpenBranch α)) (rest : Sentence) :
    interpretFrom position current parents (c :: rest) =
      resume current.close parents (.bracket position rest) := by
  cases parents <;> simp only [interpretFrom, hc] <;> rfl

/-- The branches on the stack wait until the level of the current one has been read. -/
theorem interpretFrom_eq (position : Nat) (current : OpenBranch α) (parents : List (OpenBranch α))
    (sentence : Sentence) :
    interpretFrom position current parents sentence =
      readLevel current.turtle current.last position sentence >>= fun level =>
        resume (current.finish level) parents level.ending := by
  match sentence with
  | [] =>
    rw [interpretFrom, readLevel, ← resume_sentence, ← OpenBranch.finish_close current .sentence]
    rfl
  | c :: rest =>
    have hforward := interpretFrom_eq (position + 1) current.advance parents rest
    have hturn (t : Turn) := interpretFrom_eq (position + 1) (current.rotate t) parents rest
    have hopen := interpretFrom_eq (position + 1) (.start current.turtle) (current :: parents) rest
    match hc : Symbol.ofChar? c with
    | none =>
      simp only [interpretFrom, readLevel, ← Symbol.ofChar?_eq_meaning?, hc]
      rfl
    | some .forward =>
      simp only [interpretFrom, readLevel, ← Symbol.ofChar?_eq_meaning?, hc, hforward, bind_assoc,
        pure_bind]
      rfl
    | some (.turn t) =>
      simp only [interpretFrom, readLevel, ← Symbol.ofChar?_eq_meaning?, hc]
      rw [hturn]
      by_cases h : current.turtle.HasLeft current.last
      · simp only [OpenBranch.rotate_of_hasLeft h, OpenBranch.finish_addPoint, if_pos h, bind_assoc,
          pure_bind]
        rfl
      · simp only [OpenBranch.rotate_of_not_hasLeft h, if_neg h, bind_assoc, pure_bind]
        rfl
    | some .openFork =>
      simp only [interpretFrom, readLevel, ← Symbol.ofChar?_eq_meaning?, hc, hopen, bind_assoc,
        pure_bind]
      apply bind_congr
      intro fork
      have hlt : fork.ending.rest.length < (c :: rest).length := Nat.lt_succ_of_le fork.rest_le
      have hrest := interpretFrom_eq fork.ending.next
        (current.addFork (fork.branch current.turtle)) parents fork.ending.rest
      rw [OpenBranch.finish_start, resume, hrest]
      simp only [OpenBranch.addFork_finish]
      rfl
    | some .closeFork =>
      rw [interpretFrom_closeFork hc, ← OpenBranch.finish_close current (.bracket position rest)]
      simp only [readLevel, ← Symbol.ofChar?_eq_meaning?, hc]
      rfl
termination_by sentence.length
decreasing_by all_goals first | exact hlt | exact Nat.lt_succ_self _

/-- The reading with a stack and the reading by recursive descent agree on every sentence: they find
the same tree and the same unmatched bracket, or the same error. -/
theorem interpret_eq_readTree (turtle : Turtle α) (sentence : Sentence) :
    interpret turtle sentence = readTree turtle sentence := by
  rw [interpret, interpretFrom_eq, readTree]
  rfl

end ProceduralTree
