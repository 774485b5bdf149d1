import ProceduralTree.Skeleton.Branch
import ProceduralTree.Turtle

/-!
# Interpretation of sentences

A turtle reads a sentence from left to right and draws a skeleton. Letters move it, turn symbols
record its position and turn it, brackets enclose what a fork draws with a turtle of its own.

Points are recorded lazily: only before a turn and at the end of a branch, and only if the turtle
has moved since the last recorded point. A straight run of steps is therefore one segment.

## Main definitions

* `OpenBranch` — a branch that is still being drawn.
* `interpret` — reads a sentence. Forks that it leaves open are closed at its end; a closing
  bracket with nothing to close ends the reading.
-/

namespace ProceduralTree

/-- Why a sentence has no interpretation. -/
inductive TurtleError where
  /-- A character without a meaning, and how many characters stand before it. -/
  | unknownSymbol (symbol : Char) (position : Nat)
deriving DecidableEq, Repr

def TurtleError.message : TurtleError → String
  | .unknownSymbol symbol position => s!"unknown symbol '{symbol}' at position {position}"

/-- A branch that is still being drawn, and the turtle that draws it. -/
structure OpenBranch (α : Type) where
  /-- The point recorded last. -/
  last : Vec3 α
  /-- The points recorded before it, latest first. -/
  earlier : List (Vec3 α)
  /-- The finished forks, latest first. -/
  forks : List (Branch α)
  radiusBegin : α
  turtle : Turtle α

variable {α : Type} [Scalar α]

namespace OpenBranch

/-- A branch that starts where the turtle stands. -/
def start (turtle : Turtle α) : OpenBranch α where
  last := turtle.position
  earlier := []
  forks := []
  radiusBegin := turtle.radius
  turtle := turtle

/-- Records the turtle's position if it has left the last recorded point. -/
def record (b : OpenBranch α) : OpenBranch α :=
  if Scalar.tolerance < (b.turtle.position - b.last).norm then
    { b with last := b.turtle.position, earlier := b.last :: b.earlier }
  else b

def advance (b : OpenBranch α) : OpenBranch α := { b with turtle := b.turtle.advance }

/-- Records the position, then turns. -/
def rotate (b : OpenBranch α) (turn : Turn) : OpenBranch α :=
  let b := b.record
  { b with turtle := b.turtle.rotate turn }

def addFork (b : OpenBranch α) (fork : Branch α) : OpenBranch α :=
  { b with forks := fork :: b.forks }

/-- The finished branch, which ends where the turtle stands. -/
def close (b : OpenBranch α) : Branch α :=
  let b := b.record
  { points := (b.last :: b.earlier).reverse.toArray
    forks := b.forks.reverse
    radiusBegin := b.radiusBegin
    radiusEnd := b.turtle.radius }

end OpenBranch

/-- Closes all branches that enclose a finished one, innermost first. -/
def closeAll (fork : Branch α) : List (OpenBranch α) → Branch α
  | [] => fork
  | parent :: parents => closeAll (parent.addFork fork).close parents

/-- What a sentence says. -/
structure Interpretation (α : Type) where
  root : Branch α
  /-- The position of the closing bracket that ended the reading early, if one did. -/
  unmatched : Option Nat

/-- Reads on from `position` with the branch `current` inside the branches `parents`, innermost
first. -/
def interpretFrom (position : Nat) (current : OpenBranch α) (parents : List (OpenBranch α)) :
    Sentence → Except TurtleError (Interpretation α)
  | [] => .ok ⟨closeAll current.close parents, none⟩
  | c :: rest =>
    match Symbol.ofChar? c, parents with
    | none, _ => .error (.unknownSymbol c position)
    | some .forward, _ => interpretFrom (position + 1) current.advance parents rest
    | some (.turn t), _ => interpretFrom (position + 1) (current.rotate t) parents rest
    | some .openFork, _ =>
      interpretFrom (position + 1) (.start current.turtle) (current :: parents) rest
    | some .closeFork, [] => .ok ⟨current.close, some position⟩
    | some .closeFork, parent :: parents =>
      interpretFrom (position + 1) (parent.addFork current.close) parents rest

/-- The skeleton that a turtle draws when it reads a sentence. -/
def interpret (turtle : Turtle α) (sentence : Sentence) : Except TurtleError (Interpretation α) :=
  interpretFrom 0 (.start turtle) [] sentence

end ProceduralTree
