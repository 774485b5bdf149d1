import ProceduralTree.Curve.Basic
import ProceduralTree.Growth.Settings
import ProceduralTree.Mesh.Icosahedron
import ProceduralTree.Mesh.Tube
import ProceduralTree.Skeleton.Interpretation

/-!
# Sampling the traits of a tree

Growing a tree draws from a random stream and may fail. A failure keeps the stream where it was, so
that the next tree goes on from there.

## Main definitions

* `GrowthError` — every way in which a tree may fail to grow.
* `Growing` — a computation that draws and may fail.
* `Settings.sampleTraits` — the traits of the next tree.
-/

namespace ProceduralTree

/-- Why a tree does not grow. -/
inductive GrowthError (α : Type) where
  | settings (cause : SettingsError)
  | turtle (cause : TurtleError)
  | curve (cause : CurveError α)
  | tube (cause : TubeError α)
  | leaf (cause : IcosahedronError)
  /-- Nothing can be drawn from a range. -/
  | emptyDraw

def GrowthError.message : GrowthError Float → String
  | .settings cause => cause.message
  | .turtle cause => cause.message
  | .curve cause => cause.message
  | .tube cause => cause.message
  | .leaf cause => cause.message
  | .emptyDraw => "cannot draw from an empty or unbounded range"

/-- A computation that draws from a stream and may fail. -/
abbrev Growing (σ α : Type) := ExceptT (GrowthError α) (StateM σ)

namespace Growing

variable {σ α β : Type}

def draw (d : Draw σ β) : Growing σ α β := ExceptT.lift (modifyGet d)

/-- A draw over a range, which fails if the range cannot be drawn from. -/
def drawIn : Option (Draw σ β) → Growing σ α β
  | none => throw .emptyDraw
  | some d => draw d

/-- A result that needs no draw. -/
def ofExcept {ε : Type} (cause : ε → GrowthError α) (result : Except ε β) : Growing σ α β :=
  match result with
  | .error e => throw (cause e)
  | .ok b => pure b

end Growing

/-- What is drawn for one tree. -/
structure Traits (α : Type) where
  initiator : Sentence
  derivations : UInt32
  turtle : TurtleTraits α
  radialSegments : UInt32
  /-- The greatest bonus to the size of a leaf, as a multiple of its least size. -/
  leafBonus : α

namespace Settings

open Growing RandomSource

variable {σ α : Type} [Scalar α] [RandomSource σ α]

def sampleInitiator (s : Settings α) : Growing σ α Sentence :=
  match s.initiators with
  | [] => throw (.settings .initiators)
  | first :: others => do
    let i ← draw (initiator (first :: others).length (Nat.zero_lt_succ _))
    return (first :: others).get i

def sampleScalar (i : Interval α) : Growing σ α α := drawIn (scalar i.low i.high)

def sampleWord (i : Interval UInt32) : Growing σ α UInt32 := drawIn (word i.low i.high)

def sampleTurtle (s : Settings α) : Growing σ α (TurtleTraits α) := do
  let degrees ← sampleScalar s.angleDegrees
  let stepLength ← sampleScalar s.stepLength
  let radius ← sampleScalar s.radius
  let lengthDecay ← sampleScalar s.lengthDecay
  let radiusDecay ← sampleScalar s.radiusDecay
  return { angle := Scalar.ofDegrees degrees, stepLength, radius, lengthDecay, radiusDecay }

/-- The share of the leaf budget that a tree of so many derivations has. -/
def leafShare (s : Settings α) (derivations : UInt32) : α :=
  s.leafScaleBudget / (max derivations.toNat 1 : Nat)

/-- The traits of the next tree. -/
def sampleTraits (s : Settings α) : Growing σ α (Traits α) := do
  let initiator ← s.sampleInitiator
  let derivations ← sampleWord s.derivations
  let turtle ← s.sampleTurtle
  let radialSegments ← sampleWord s.radialSegments
  let leafBonus ← sampleScalar ⟨0, s.leafShare derivations⟩
  return { initiator, derivations, turtle, radialSegments, leafBonus }

end Settings

end ProceduralTree
