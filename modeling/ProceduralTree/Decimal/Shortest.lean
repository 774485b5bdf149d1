/-!
# Shortest decimal digits

A finite binary64 number is `m · 2^e` for natural `m`, and the reals that round to it form an
interval around it. `Dyadic.shortest` finds the decimal `digits · 10^power` in that interval with
the fewest digits, and of those the one nearest the number.

A grid of step `10^power` that meets the interval has one of the number's two neighbours on the
grid in it, so only those two are tried, with one digit, with two, and so on; seventeen digits
always suffice.

## Main definitions

* `Dyadic.ofFloat` — the magnitude of a finite number.
* `Dyadic.shortest` — its shortest decimal.
* `Decimal.text` — a number written out in full, without an exponent.
-/

namespace ProceduralTree

/-- The number `mantissa · 2^exponent`. -/
structure Dyadic where
  mantissa : Nat
  exponent : Int
deriving DecidableEq, Repr

/-- The number `digits · 10^power`. -/
structure Decimal where
  digits : Nat
  power : Int
deriving DecidableEq, Repr

namespace Dyadic

/-- The leading bit of a mantissa, which is left out of its written form. -/
def hiddenBit : Nat := 1 <<< 52

def twoPow (power : Int) : Nat := 1 <<< power.toNat

def tenPow (power : Int) : Nat := Nat.pow 10 power.toNat

/-- The magnitude of a finite number. -/
def ofFloat (a : Float) : Dyadic :=
  let fraction := (a.toBits &&& 0xFFFFFFFFFFFFF).toNat
  let biased := ((a.toBits >>> 52) &&& 0x7FF).toNat
  if biased = 0 then ⟨fraction, -1074⟩ else ⟨fraction + hiddenBit, biased - 1075⟩

/-- The numerator and the denominator. -/
def quotient (d : Dyadic) : Nat × Nat :=
  (d.mantissa * twoPow d.exponent, twoPow (-d.exponent))

/-- Whether the neighbour below is only half as far as the neighbour above. -/
def HasNearNeighbour (d : Dyadic) : Prop := d.mantissa = hiddenBit ∧ -1074 < d.exponent

instance (d : Dyadic) : Decidable d.HasNearNeighbour := inferInstanceAs (Decidable (_ ∧ _))

/-- The ends of the interval of reals that round to `d`, in units of `2^(exponent - 2)`. -/
def interval (d : Dyadic) : Nat × Nat :=
  (4 * d.mantissa - if d.HasNearNeighbour then 1 else 2, 4 * d.mantissa + 2)

/-- Whether the decimal `c · 10^power` rounds to `d`. The ends of the interval do so exactly if the
mantissa is even. -/
def Rounds (d : Dyadic) (c : Decimal) : Prop :=
  let (low, high) := d.interval
  let scale := twoPow (2 - d.exponent) * tenPow c.power
  let unit := twoPow (d.exponent - 2) * tenPow (-c.power)
  if d.mantissa % 2 = 0 then low * unit ≤ c.digits * scale ∧ c.digits * scale ≤ high * unit
  else low * unit < c.digits * scale ∧ c.digits * scale < high * unit

instance (d : Dyadic) (c : Decimal) : Decidable (d.Rounds c) := by
  unfold Rounds; infer_instance

def digitCount (n : Nat) : Nat := (Nat.toDigits 10 n).length

/-- A power of ten such that `d` lies between it and the next one, ends included. -/
def decade (d : Dyadic) : Int :=
  let (n, m) := d.quotient
  if m ≤ n then digitCount (n / m) - 1 else -digitCount (m / n)

/-- The neighbours of `d` on the grid of step `10^power` that round to `d`, nearest first. -/
def neighbours (d : Dyadic) (power : Int) : List Decimal :=
  let (n, m) := d.quotient
  let n := n * tenPow (-power)
  let m := m * tenPow power
  let below : Decimal := ⟨n / m, power⟩
  let above : Decimal := ⟨n / m + 1, power⟩
  (if 2 * (n % m) < m then [below, above] else [above, below]).filter d.Rounds

/-- The shortest decimal with at most `more` digits beyond the first `count`. -/
def shortestFrom (d : Dyadic) (count : Nat) : Nat → Decimal
  | 0 => ⟨0, 0⟩
  | more + 1 =>
    match d.neighbours (d.decade + 1 - count) with
    | c :: _ => c
    | [] => d.shortestFrom (count + 1) more

/-- The decimal with the fewest digits that rounds to `d`. -/
def shortest (d : Dyadic) : Decimal :=
  if d.mantissa = 0 then ⟨0, 0⟩ else d.shortestFrom 1 17

end Dyadic

namespace Decimal

/-- The decimal without trailing zeros among its digits, of which there are at most `count`. -/
def trim (c : Decimal) : Nat → Decimal
  | 0 => c
  | count + 1 =>
    if c.digits ≠ 0 ∧ c.digits % 10 = 0 then (⟨c.digits / 10, c.power + 1⟩ : Decimal).trim count
    else c

/-- A decimal written without an exponent. -/
def positional (c : Decimal) : String :=
  let c := c.trim 20
  let digits := Nat.toDigits 10 c.digits
  if 0 ≤ c.power then String.ofList (digits ++ List.replicate c.power.toNat '0')
  else
    let places := (-c.power).toNat
    let digits := List.replicate (places + 1 - digits.length) '0' ++ digits
    let whole := digits.length - places
    String.ofList (digits.take whole ++ '.' :: digits.drop whole)

/-- A number written with the fewest digits that read back, without an exponent. -/
def text (a : Float) : String :=
  if a.isNaN then "NaN"
  else
    let magnitude := if a.isInf then "inf" else (Dyadic.ofFloat a).shortest.positional
    if a.toBits >>> 63 = 1 then "-" ++ magnitude else magnitude

end Decimal

end ProceduralTree
