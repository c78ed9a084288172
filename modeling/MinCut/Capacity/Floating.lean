import MinCut.Capacity.Basic
import MinCut.Decimal.Layout

/-!
# Floating-point capacities

Both floating-point types serve as capacities. Sums, differences and
comparisons are those of the type itself, with its rounding; a checked sum is
the rounded sum, unless that is infinite or no number.
-/

namespace MinCut

open Decimal

/-- What a floating-point number of 64 bits says, as told by its bits. -/
def readDouble (x : Float) : Reading := BinaryFormat.double.read x.toBits.toNat

/-- What a floating-point number of 32 bits says, as told by its bits. -/
def readSingle (x : Float32) : Reading := BinaryFormat.single.read x.toBits.toNat

instance : Capacity Float where
  decidableLT := inferInstance
  decidableLE := inferInstance
  checkedAdd x y := if (x + y).isFinite then some (x + y) else none
  text x := Layout.measured.text .double (readDouble x)
  units x := (readDouble x).units

instance : Capacity Float32 where
  decidableLT := inferInstance
  decidableLE := inferInstance
  checkedAdd x y := if (x + y).isFinite then some (x + y) else none
  text x := Layout.measured.text .single (readSingle x)
  units x := (readSingle x).units

end MinCut
