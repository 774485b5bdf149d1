import ProceduralTree.Random.Keystream
import ProceduralTree.Random.Source
import ProceduralTree.Scalar.Binary64

/-!
# Uniform draws from the keystream

A number below `n` is the high half of the product of `n` with a fresh word. The words whose
product has too large a low half would favour some results, so they are drawn again. The number of
attempts is bounded; after the last one its word is taken as it is, which keeps the result below
`n` at any rate.

A scalar in `[low, high]` scales a multiple of `2⁻⁵²` in `[0, 1)`. Rounding may carry the top of
the scaled interval beyond `high`; the scale is then stepped down to the next scalars below.
-/

namespace ProceduralTree.Keystream

def attempts : Nat := 4096

/-- The largest low half of a product with `n` for which words of `width` bits are fair. -/
def fairLimit (width n : Nat) : Nat := (n <<< (width - 1 - n.log2)) - 1

/-- The high half of the product of `n` with one of `size` words. -/
def highHalf {size n : Nat} (pos : 0 < n) (v : Fin size) : Fin n :=
  ⟨v * n / size, Nat.div_lt_of_lt_mul (Nat.mul_lt_mul_of_pos_right v.isLt pos)⟩

/-- A draw below `n` from draws of a word of `width` bits; it makes at most `tries` more attempts
after the first. -/
def below {size : Nat} (width : Nat) (word : Draw Keystream (Fin size)) (n : Nat) (pos : 0 < n) :
    (tries : Nat) → Draw Keystream (Fin n)
  | 0, s =>
    let (v, s) := word s
    (highHalf pos v, s)
  | tries + 1, s =>
    let (v, s) := word s
    if v * n % size ≤ fairLimit width n then (highHalf pos v, s)
    else below width word n pos tries s

def short (s : Keystream) : Fin UInt32.size × Keystream :=
  let (v, s) := s.word32
  (v.toFin, s)

def long (s : Keystream) : Fin UInt64.size × Keystream :=
  let (v, s) := s.word64
  (v.toFin, s)

def shortBelow (n : Nat) (pos : 0 < n) : Draw Keystream (Fin n) := below 32 short n pos attempts

def longBelow (n : Nat) (pos : 0 < n) : Draw Keystream (Fin n) := below 64 long n pos attempts

/-- A word in `[low, high]`, if there is one. -/
def wordIn (low high : UInt32) : Option (Draw Keystream UInt32) :=
  if low ≤ high then
    some fun s =>
      let (offset, s) := shortBelow (high.toNat - low.toNat + 1) (Nat.succ_pos _) s
      (low + UInt32.ofNat offset, s)
  else none

/-- A multiple of `2⁻⁵²` in `[0, 1)`. -/
def fraction (s : Keystream) : Float × Keystream :=
  let (v, s) := s.word64
  ((v >>> 12).toFloat / 4503599627370496.0, s)

/-- The largest value of `fraction`. -/
def topFraction : Float := 4503599627370495.0 / 4503599627370496.0

/-- The next scalar below a positive one. -/
def stepDown (a : Float) : Float := Float.ofBits (a.toBits - 1)

/-- Steps `scale` down until the top of the scaled interval does not exceed `high`. -/
def fitScale (low high : Float) : Nat → Float → Float
  | 0, scale => scale
  | steps + 1, scale =>
    if scale * topFraction + low > high then fitScale low high steps (stepDown scale) else scale

/-- The scale that takes the fractions to `[low, high]`; there is none if the bounds are not in
order or are too far apart. -/
def scaleOf? (low high : Float) : Option Float :=
  if low ≤ high then
    let scale := (high - low) / topFraction
    if scale.isFinite then some (fitScale low high attempts scale) else none
  else none

/-- A scalar in `[low, high]`. -/
def scalarIn (low high : Float) : Option (Draw Keystream Float) :=
  (scaleOf? low high).map fun scale s =>
    let (f, s) := s.fraction
    (f * scale + low, s)

/-- An angle of less than a full turn, since every fraction stays a rounding step below one. -/
def angle (s : Keystream) : Float × Keystream :=
  let (f, s) := s.fraction
  (f * Scalar.turn, s)

instance : RandomSource Keystream Float where
  alternative := longBelow
  initiator := shortBelow
  word := wordIn
  scalar := scalarIn
  angle := angle

end ProceduralTree.Keystream
