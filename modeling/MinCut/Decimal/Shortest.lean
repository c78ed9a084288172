import MinCut.Decimal.Binary

/-!
# The fewest digits that read back

A floating-point number stands for a whole interval of rational numbers, those
that are rounded to it. Any decimal in that interval reads back as the number,
so a number is best written with the fewest digits for which the interval holds
a decimal, and among these with the decimal nearest to the number itself.

The interval reaches half way to the neighbours on either side. Its ends belong
to it if the significand is even, since halves go to the even neighbour; and the
lower half is only half as wide below a power of two (`Interval.ofReading`).

For each number of digits, only the two decimals around the number itself can be
nearest, and if any decimal of that many digits lies in the interval then one of
these does. `Interval.shortest` tries one digit, two digits and so on. All
comparisons are between natural numbers.
-/

namespace MinCut.Decimal

/-- A decimal number `d.ddd… * 10 ^ exponent`. -/
structure Numeral where
  /-- Its digits, of which the first stands before the point. -/
  digits : List Char
  /-- The exponent. -/
  exponent : Int
deriving DecidableEq

/-- The digits of a natural number, without the zeros at the end. -/
def significantDigits (k : Nat) : List Char :=
  ((Nat.toDigits 10 k).reverse.dropWhile (· == '0')).reverse

/-- How many digits a natural number has. -/
def digitCount (k : Nat) : Nat := (Nat.toDigits 10 k).length

/-- A power of ten. -/
def tenTo (k : Nat) : Nat := Nat.pow 10 k

/-- The multiple `k * 10 ^ place`. -/
def Numeral.ofMultiple (k : Nat) (place : Int) : Numeral where
  digits := significantDigits k
  exponent := place + digitCount k - 1

/-- A positive number between the bounds of what is rounded to it, all three as
multiples of one and the same fraction `1 / unit`. -/
structure Interval where
  /-- The lower bound. -/
  low : Nat
  /-- The number. -/
  value : Nat
  /-- The upper bound. -/
  high : Nat
  /-- How many make one. -/
  unit : Nat
  /-- Whether the bounds are rounded to the number too. -/
  closed : Bool

namespace Interval

/-- The interval of a positive number of a format. -/
def ofReading (F : BinaryFormat) (significand doublings : Nat) : Interval :=
  let quarter := 1 <<< doublings
  let below := if significand = 1 <<< F.fractionBits ∧ 0 < doublings then 1 else 2
  { low := (4 * significand - below) * quarter
    value := 4 * significand * quarter
    high := (4 * significand + 2) * quarter
    unit := 4 * F.unitsPerOne
    closed := significand % 2 == 0 }

/-- The exponent of the number: `10 ^ exponent` is the largest power of ten that
does not exceed it. -/
def exponent (I : Interval) : Int :=
  let shift := digitCount (I.unit / I.value)
  digitCount (I.value * tenTo shift / I.unit) - 1 - shift

/-- Whether an amount `x` of fractions finer by a factor is rounded to the
number. -/
def contains (I : Interval) (factor x : Nat) : Bool :=
  if I.closed then I.low * factor ≤ x && x ≤ I.high * factor
  else I.low * factor < x && x < I.high * factor

/-- The multiple of `10 ^ place` in the interval that is nearest to the number;
of two equally near ones, the larger. -/
def multiple? (I : Interval) (place : Int) : Option Nat :=
  let factor := tenTo (-place).toNat
  let step := I.unit * tenTo place.toNat
  let value := I.value * factor
  let k := value / step
  match I.contains factor (k * step), I.contains factor ((k + 1) * step) with
  | true, true => if 2 * (value - k * step) < step then some k else some (k + 1)
  | true, false => some k
  | false, true => some (k + 1)
  | false, false => none

/-- **The shortest numeral in the interval**, of at most a given number of
digits; failing that, the number cut off after as many digits. -/
def shortest (I : Interval) (digits : Nat) : Numeral :=
  let exponent := I.exponent
  let numeral? (i : Nat) : Option Numeral :=
    (I.multiple? (exponent - i)).map (Numeral.ofMultiple · (exponent - i))
  match (List.range digits).findSome? numeral? with
  | some numeral => numeral
  | none =>
    let place := exponent - digits + 1
    .ofMultiple (I.value * tenTo (-place).toNat / (I.unit * tenTo place.toNat)) place

end Interval

end MinCut.Decimal
