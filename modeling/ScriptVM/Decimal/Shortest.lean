/-!
The shortest decimal that reads back as a given binary64 number.

A finite positive number is `mantissa * 2 ^ exponent`. The reals that round to it form an interval
whose ends belong to it just when the mantissa is even. Among the decimals `digits * 10 ^ scale` of
the coarsest grid that meets the interval, the one nearest to the number is taken; of two that are
equally near, the larger. Everything is exact arithmetic on natural numbers.
-/
namespace ScriptVM.Decimal

/-- The decimal `digits * 10 ^ scale`. -/
structure Scaled where
  digits : Nat
  scale : Int
deriving DecidableEq, Repr, Inhabited

/-- The binary number `mantissa * 2 ^ exponent`. -/
structure Binary where
  mantissa : Nat
  exponent : Int
  /-- Whether the next smaller number is only half as far away as the next larger one. -/
  narrowBelow : Bool
deriving DecidableEq, Repr

namespace Binary

/-- The number and the ends of the interval that rounds to it, over a common denominator: twice the
halfway points, so that all of them are whole multiples of a quarter of the last place. -/
structure Interval where
  low : Nat
  value : Nat
  high : Nat
  denominator : Nat
  /-- Whether the ends themselves round to the number. -/
  closed : Bool
deriving DecidableEq, Repr

/-- The interval of reals that round to a number. -/
def interval (b : Binary) : Interval :=
  let quarter := b.exponent - 2
  let up := Nat.pow 2 quarter.toNat
  { low := (4 * b.mantissa - if b.narrowBelow then 1 else 2) * up
    value := 4 * b.mantissa * up
    high := (4 * b.mantissa + 2) * up
    denominator := Nat.pow 2 (-quarter).toNat
    closed := b.mantissa % 2 = 0 }

end Binary

/-- Whether `point / denominator` lies in the interval, both sides scaled by the same factor. -/
def Binary.Interval.contains (i : Binary.Interval) (factor point : Nat) : Bool :=
  if i.closed then i.low * factor ≤ point && point ≤ i.high * factor
  else i.low * factor < point && point < i.high * factor

/-- The point of the grid of multiples of `10 ^ scale` in the interval that is nearest to the
number, looking only at the two points around it. -/
def onGrid (i : Binary.Interval) (scale : Int) : Option Nat :=
  let factor := Nat.pow 10 (-scale).toNat
  let unit := Nat.pow 10 scale.toNat * i.denominator
  let target := i.value * factor
  let below := target / unit
  let above := below + 1
  match i.contains factor (below * unit), i.contains factor (above * unit) with
  | true, true =>
    some (if target - below * unit < above * unit - target then below else above)
  | true, false => some below
  | false, true => some above
  | false, false => none

/-- The first grid that meets the interval, from coarse to fine. -/
def coarsest (i : Binary.Interval) : Nat → Int → Scaled
  | 0, scale => ⟨0, scale⟩
  | fuel + 1, scale =>
    match onGrid i scale with
    | some digits => ⟨digits, scale⟩
    | none => coarsest i fuel (scale - 1)

/-- A power of ten that is no smaller than a number, and not much larger. -/
def scaleAbove (b : Binary) : Int :=
  ((Nat.log2 b.mantissa : Int) + 1 + b.exponent) * 30103 / 100000 + 2

/-- The shortest decimal that reads back as a positive number. Seventeen digits always do, and the
first grid tried has none to three digits too few. -/
def shortest (b : Binary) : Scaled :=
  coarsest b.interval 24 (scaleAbove b)

/-- What a binary64 number is. -/
inductive Class where
  | notANumber
  | infinite (negative : Bool)
  | zero (negative : Bool)
  | finite (negative : Bool) (magnitude : Binary)
deriving DecidableEq, Repr

/-- The place value of the lowest bit of the exponent, and the weight of the leading bit of a normal
mantissa. -/
def exponentUnit : Nat := Nat.pow 2 52

/-- The number of exponents. The last one marks what is not finite. -/
def exponentCount : Nat := 2048

/-- Takes a binary64 number apart. -/
def classify (x : Float) : Class :=
  let bits := x.toBits.toNat
  let negative : Bool := bits / exponentUnit / exponentCount = 1
  let exponent : Nat := bits / exponentUnit % exponentCount
  let fraction := bits % exponentUnit
  if exponent + 1 = exponentCount then
    if fraction = 0 then .infinite negative else .notANumber
  else if exponent = 0 then
    if fraction = 0 then .zero negative else .finite negative ⟨fraction, -1074, false⟩
  else
    .finite negative
      ⟨exponentUnit + fraction, (exponent : Int) - 1075, fraction = 0 && exponent ≠ 1⟩

end ScriptVM.Decimal
