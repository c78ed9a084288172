import MinCut.Decimal.Shortest

/-!
# How decimals are laid out

The digits of a number are one thing, how they are written another. A `Layout`
holds the decisions: for which exponents the point stands among the digits and
for which the exponent is written out, and what follows a whole number.

Two layouts are in use. Amounts in answers and in most messages are written so
that they can be told from whole numbers and do not run over
(`Layout.measured`); the indices and the flow of tables are written plainly,
with all their digits (`Layout.plain`).
-/

namespace MinCut.Decimal

/-- Decisions on how numbers are written. -/
structure Layout where
  /-- The least exponent that is not written out, if there is one. -/
  leastExponent : Option Int
  /-- The greatest exponent that is not written out, if there is one. -/
  greatestExponent : Option Int
  /-- What follows a whole number whose exponent is not written out. -/
  wholeEnd : String

namespace Layout

/-- Exponents are written out below `-4` and above `15`; whole numbers have a
zero behind the point. -/
def measured : Layout := ⟨some (-4), some 15, ".0"⟩

/-- Exponents are never written out, and whole numbers have no point. -/
def plain : Layout := ⟨none, none, ""⟩

/-- Whether the point stands among the digits. -/
def isPositional (L : Layout) (exponent : Int) : Bool :=
  L.leastExponent.all (· ≤ exponent) && L.greatestExponent.all (exponent ≤ ·)

/-- A numeral with its point among the digits, filled up with zeros. -/
def positional (L : Layout) (x : Numeral) : String :=
  if x.exponent < 0 then
    "0." ++ String.ofList (List.replicate (-x.exponent - 1).toNat '0' ++ x.digits)
  else
    let places := x.exponent.toNat + 1
    let whole := x.digits.take places
    let fraction := x.digits.drop places
    let zeros := List.replicate (places - whole.length) '0'
    String.ofList (whole ++ zeros)
      ++ (if fraction.isEmpty then L.wholeEnd else "." ++ String.ofList fraction)

/-- A numeral with its exponent written out. -/
def scientific (x : Numeral) : String :=
  let fraction := x.digits.drop 1
  String.ofList (x.digits.take 1)
    ++ (if fraction.isEmpty then "" else "." ++ String.ofList fraction)
    ++ "e" ++ x.exponent.repr

/-- A numeral, written as the layout says. -/
def numeral (L : Layout) (x : Numeral) : String :=
  if L.isPositional x.exponent then L.positional x else scientific x

/-- **A floating-point number in its shortest form**, written as the layout
says. -/
def text (L : Layout) (F : BinaryFormat) : Reading → String
  | .nan => "NaN"
  | .infinite negative => sign negative ++ "inf"
  | .finite negative significand doublings =>
    sign negative ++
      (if significand = 0 then "0" ++ L.wholeEnd
      else L.numeral ((Interval.ofReading F significand doublings).shortest F.digits))
where
  /-- The sign of a number. -/
  sign (negative : Bool) : String := if negative then "-" else ""

example : measured.text .double (.finite false 1 0) = "5e-324" := by decide +kernel

example : measured.text .double (BinaryFormat.double.read 0x3fb999999999999a) = "0.1" := by
  decide +kernel

example : plain.text .single (BinaryFormat.single.read 0xc0400000) = "-3" := by
  decide +kernel

end Layout

end MinCut.Decimal
