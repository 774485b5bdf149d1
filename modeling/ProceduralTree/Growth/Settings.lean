import ProceduralTree.Grammar.Rules
import ProceduralTree.Mesh.Color

/-!
# Settings of a generator

The settings say which rules all trees of a generator share and from which ranges the traits of
each tree are drawn. `Settings.validate` finds the first range with nothing to draw from.
-/

namespace ProceduralTree

/-- A range that includes both of its ends. -/
structure Interval (α : Type) where
  low : α
  high : α
deriving DecidableEq, Repr

/-- Whether the ends of an interval are out of order, or not ordered at all. -/
def Interval.IsEmpty {α : Type} [LE α] (i : Interval α) : Prop := ¬i.low ≤ i.high

instance {α : Type} [LE α] [DecidableLE α] (i : Interval α) : Decidable i.IsEmpty :=
  inferInstanceAs (Decidable (¬_))

/-- The traits of a turtle, by the names of their ranges. -/
inductive TurtleTrait where
  | angleDegrees
  | stepLength
  | radius
  | lengthDecay
  | radiusDecay
deriving DecidableEq, Repr

def TurtleTrait.name : TurtleTrait → String
  | angleDegrees => "angle_degrees"
  | stepLength => "step_length"
  | radius => "radius"
  | lengthDecay => "length_decay"
  | radiusDecay => "radius_decay"

/-- What is wrong with the settings. -/
inductive SettingsError where
  | initiators
  | derivations
  | radialSegments
  | segmentCount
  | range (trait : TurtleTrait)
  | negativeRadius
  | leafScaleBudget
  | rule (cause : RuleError)
deriving DecidableEq, Repr

namespace SettingsError

def reason : SettingsError → String
  | initiators => "axioms must not be empty"
  | derivations => "derivations range is empty"
  | radialSegments => "radial_segments must be a non-empty range above zero"
  | segmentCount => "segment_count must be positive"
  | range trait => trait.name ++ " range is empty or not finite"
  | negativeRadius => "radius must be non-negative"
  | leafScaleBudget => "leaf_scale_budget must be non-negative"
  | rule cause => cause.message

def message : SettingsError → String
  | rule cause => cause.message
  | e => "invalid generator configuration: " ++ e.reason

end SettingsError

structure Settings (α : Type) where
  /-- The sentences that a tree may start from. -/
  initiators : List Sentence
  /-- The rules, of which a later one for the same symbol counts. -/
  rules : List (Char × List Sentence)
  /-- The number of derivation steps. -/
  derivations : Interval UInt32
  angleDegrees : Interval α
  stepLength : Interval α
  radius : Interval α
  lengthDecay : Interval α
  radiusDecay : Interval α
  /-- The number of vertices of a ring. -/
  radialSegments : Interval UInt32
  /-- The number of segments of every tube. -/
  segmentCount : UInt32
  /-- What the leaves of a tree share: their size is bounded by it divided by the number of
  derivation steps. -/
  leafScaleBudget : α
  barkColor : Rgb
  foliageColor : Rgb

namespace Settings

variable {α : Type} [Scalar α]

instance : Inhabited (Settings α) where
  default :=
    { initiators := ["BBA".toList, "BBBBA".toList, "BBBBA".toList, "BBBBBA".toList]
      rules :=
        [('A', ["[++BB[--C][++C][__C][^^C]A]/////+BBB[--C][++C][__C][^^C]A".toList]),
         ('B', ["\\B".toList, "B".toList])]
      derivations := ⟨4, 7⟩
      angleDegrees := ⟨(10 : Nat), (22 : Nat)⟩
      stepLength := ⟨Scalar.ratio 9 10, 1⟩
      radius := ⟨Scalar.ratio 2 10, Scalar.ratio 8 10⟩
      lengthDecay := ⟨Scalar.ratio 95 100, Scalar.ratio 99 100⟩
      radiusDecay := ⟨Scalar.ratio 9 10, 1⟩
      radialSegments := ⟨4, 10⟩
      segmentCount := 15
      leafScaleBudget := (12 : Nat)
      barkColor := .bark
      foliageColor := .foliage }

def range (s : Settings α) : TurtleTrait → Interval α
  | .angleDegrees => s.angleDegrees
  | .stepLength => s.stepLength
  | .radius => s.radius
  | .lengthDecay => s.lengthDecay
  | .radiusDecay => s.radiusDecay

def ruleSet (s : Settings α) : Except RuleError Rules := Rules.ofList s.rules

/-- Whether the interval has finite ends in order. -/
def IsRange (i : Interval α) : Prop :=
  (Scalar.isFinite i.low ∧ Scalar.isFinite i.high) ∧ ¬i.IsEmpty

instance (i : Interval α) : Decidable (IsRange i) := inferInstanceAs (Decidable (_ ∧ _))

/-- The first turtle trait whose range is unusable. -/
def badRange? (s : Settings α) : Option TurtleTrait :=
  [.angleDegrees, .stepLength, .radius, .lengthDecay, .radiusDecay].find? fun trait =>
    ¬IsRange (s.range trait)

/-- Accepts the settings, or names the first of their faults. -/
def validate (s : Settings α) : Except SettingsError Unit := do
  if s.initiators.isEmpty then throw .initiators
  if s.derivations.IsEmpty then throw .derivations
  if s.radialSegments.IsEmpty ∨ s.radialSegments.low = 0 then throw .radialSegments
  if s.segmentCount = 0 then throw .segmentCount
  if let some trait := s.badRange? then throw (.range trait)
  if s.radius.low < 0 then throw .negativeRadius
  if ¬Scalar.isFinite s.leafScaleBudget ∨ s.leafScaleBudget < 0 then throw .leafScaleBudget
  discard (s.ruleSet.mapError .rule)

end Settings

end ProceduralTree
