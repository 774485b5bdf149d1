import ProceduralTree.Scalar.Basic

/-!
# Streams of random draws

What the library asks of a random stream, whatever produces it. A draw takes the stream and
returns the drawn value with the rest of the stream.

A range to draw from may be unusable: its bounds are in the wrong order or are no numbers, or it is
wider than the largest scalar. That depends on the bounds alone, so a draw over a range is an
optional draw and not a draw of an optional value.
-/

namespace ProceduralTree

/-- A draw of an `α` from a stream in state `σ`. -/
abbrev Draw (σ α : Type) := σ → α × σ

/-- A stream that can pick one of several replacements of a symbol. -/
class ChoiceSource (σ : Type) where
  alternative (count : Nat) (pos : 0 < count) : Draw σ (Fin count)

/-- A stream that can draw all the traits of a tree. -/
class RandomSource (σ : Type) (α : outParam Type) extends ChoiceSource σ where
  /-- One of `count` initiators. -/
  initiator (count : Nat) (pos : 0 < count) : Draw σ (Fin count)
  /-- A word in `[low, high]`. -/
  word (low high : UInt32) : Option (Draw σ UInt32)
  /-- A scalar in `[low, high]`. -/
  scalar (low high : α) : Option (Draw σ α)
  /-- An angle of less than a full turn. -/
  angle : Draw σ α

/-- A stream that draws nothing but zero from a range that holds nothing else. -/
class LawfulRandomSource (σ : Type) {α : Type} [Zero α] [LE α] [RandomSource σ α] : Prop where
  scalar_nonpos {high : α} {draw : Draw σ α} (hhigh : high ≤ 0)
    (h : RandomSource.scalar 0 high = some draw) (source : σ) : (draw source).1 = 0

end ProceduralTree
