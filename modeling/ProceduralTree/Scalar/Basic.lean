/-!
# Scalars

Every geometric definition of the library is generic in its number type. `Scalar` lists what the
number type must offer: field operations, an order with decidable tests, roots and the circular
functions. Running programs use binary64 numbers; statements about exact arithmetic use the reals.

The order tests may fail in both directions (a NaN is neither below nor above anything), so
`least`, `greatest` and `clamp` say what happens to an operand that differs from itself.
-/

namespace ProceduralTree

/-- A number type rich enough for the geometry of a tree. -/
class Scalar (α : Type) extends
    Add α, Sub α, Mul α, Div α, Neg α, Zero α, One α, NatCast α, LT α, LE α where
  decidableLT : DecidableLT α
  decidableLE : DecidableLE α
  /-- The integer part of a non-negative scalar. -/
  floor : α → Nat
  isFinite : α → Bool
  sqrt : α → α
  fourthRoot : α → α
  sin : α → α
  cos : α → α
  arccos : α → α
  pi : α

namespace Scalar

variable {α : Type} [Scalar α]

attribute [reducible, instance] decidableLT decidableLE

/-- The quotient of two natural numbers. -/
@[inline] def ratio (n m : Nat) : α := n / m

/-- A full turn, in radians. -/
@[inline] def turn : α := (2 : Nat) * pi

/-- Lengths below this count as zero. -/
@[inline] def tolerance : α := ratio 1 10000000000

def ofDegrees (degrees : α) : α := degrees * (pi / (180 : Nat))

def abs (a : α) : α := if a < 0 then -a else a

/-- Whether `a` is a number, and not an undefined result. -/
def IsNumber (a : α) : Prop := a ≤ a

instance (a : α) : Decidable (IsNumber a) := inferInstanceAs (Decidable (a ≤ a))

/-- The smaller operand; one that is no number is passed over. -/
def least (a b : α) : α := if b < a ∨ ¬IsNumber a then b else a

/-- The larger operand; one that is no number is passed over. -/
def greatest (a b : α) : α := if a < b ∨ ¬IsNumber a then b else a

/-- Moves `a` to the nearer end of `[low, high]` when it lies outside. -/
def clamp (low high a : α) : α := if a < low then low else if high < a then high else a

end Scalar

end ProceduralTree
