/-!
# Binary floating-point numbers

A finite floating-point number is a whole multiple of the smallest positive
one of its format. `BinaryFormat.read` takes the bits of a number apart and
gives the sign, the significand and the number of doublings that make up that
multiple; nothing is rounded on the way. The multiple (`Reading.units`) and how
many of them make one (`BinaryFormat.unitsPerOne`) say exactly which rational
number it is.
-/

namespace MinCut.Decimal

/-- The widths of the fields of a floating-point format. -/
structure BinaryFormat where
  /-- The bits of the fraction. -/
  fractionBits : Nat
  /-- The bits of the exponent. -/
  exponentBits : Nat

/-- What the bits of a floating-point number say. -/
inductive Reading where
  /-- No number. -/
  | nan
  /-- Beyond all numbers. -/
  | infinite (negative : Bool)
  /-- The significand, doubled a number of times, of the smallest positive
  number. -/
  | finite (negative : Bool) (significand doublings : Nat)
deriving DecidableEq

namespace BinaryFormat

/-- The format of 32 bits. -/
def single : BinaryFormat := ⟨23, 8⟩

/-- The format of 64 bits. -/
def double : BinaryFormat := ⟨52, 11⟩

/-- How many of the smallest positive number make one. -/
def unitsPerOne (F : BinaryFormat) : Nat :=
  1 <<< ((1 <<< (F.exponentBits - 1)) - 2 + F.fractionBits)

/-- Takes the bits of a number apart. An exponent of zero marks the numbers
whose significand has no leading bit; the largest exponent marks what is not a
finite number. -/
def read (F : BinaryFormat) (bits : Nat) : Reading :=
  let fraction := bits % (1 <<< F.fractionBits)
  let exponent := (bits >>> F.fractionBits) % (1 <<< F.exponentBits)
  let negative := bits.testBit (F.fractionBits + F.exponentBits)
  if exponent + 1 = 1 <<< F.exponentBits then
    if fraction = 0 then .infinite negative else .nan
  else if exponent = 0 then .finite negative fraction 0
  else .finite negative ((1 <<< F.fractionBits) + fraction) (exponent - 1)

/-- A bound on the number of digits that tell the numbers of a format apart. -/
def digits (F : BinaryFormat) : Nat := (F.fractionBits + 1) * 301 / 1000 + 2

end BinaryFormat

/-- How many of the smallest positive number a finite positive number is; zero
for all others. -/
def Reading.units : Reading → Nat
  | finite false significand doublings => significand <<< doublings
  | _ => 0

/-- Whether there is a finite number. -/
def Reading.isFinite : Reading → Bool
  | finite .. => true
  | _ => false

/-- How many of the smallest positive number a finite number is, with its sign; zero for
all others. -/
def Reading.signedUnits : Reading → Int
  | finite negative significand doublings =>
    if negative then -(significand <<< doublings : Nat) else (significand <<< doublings : Nat)
  | _ => 0

/-- The whole part of a finite number: what stands behind the point is dropped. -/
def Reading.trunc (F : BinaryFormat) (r : Reading) : Int := r.signedUnits.tdiv F.unitsPerOne

example : BinaryFormat.double.read 0x3ff0000000000000 = .finite false (2 ^ 52) 1022 := by
  decide

example : (BinaryFormat.double.read 0xc004000000000000).trunc .double = -2 := by
  decide +kernel

end MinCut.Decimal
