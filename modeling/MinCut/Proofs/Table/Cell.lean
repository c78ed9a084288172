import MinCut.Table.Basic
import Mathlib.Data.Rat.Floor
import Mathlib.Tactic.Linarith

/-!
# The node that a cell names

What a finite floating-point number stands for is a rational number
(`Decimal.Reading.value?`). Cells are tested and cut off in whole multiples of the
smallest positive number, with no rounding, so that they name a node just where the
rational number without its fraction counts one (`Table.index?_eq`).
-/

namespace MinCut

namespace Decimal

/-- **The number that a reading stands for**, if it is finite. -/
def Reading.value? (F : BinaryFormat) : Reading → Option ℚ
  | finite negative significand doublings =>
    some ((if negative then -1 else 1) * (significand * 2 ^ doublings / F.unitsPerOne))
  | _ => none

/-- A rational number without what stands behind the point. -/
def truncate (q : ℚ) : ℤ := if 0 ≤ q then ⌊q⌋ else ⌈q⌉

/-- One is a positive number of units. -/
theorem BinaryFormat.unitsPerOne_pos (F : BinaryFormat) : 0 < F.unitsPerOne := by
  unfold unitsPerOne
  rw [Nat.one_shiftLeft]
  exact Nat.two_pow_pos _

/-- The number in terms of the smallest positive one. -/
theorem Reading.value?_eq (F : BinaryFormat) (r : Reading) :
    r.value? F = if r.isFinite then some (r.signedUnits / F.unitsPerOne : ℚ) else none := by
  cases r with
  | finite negative significand doublings =>
    refine congrArg some ?_
    cases negative <;> simp [signedUnits, Nat.shiftLeft_eq, neg_div]
  | _ => rfl

/-- Cutting off a fraction is a division that rounds toward zero. -/
theorem truncate_div (z : ℤ) {d : ℕ} (hd : 0 < d) : truncate (z / d : ℚ) = z.tdiv d := by
  have hdq : (0 : ℚ) < d := Nat.cast_pos.2 hd
  unfold truncate
  rcases le_or_gt 0 z with hz | hz
  · rw [if_pos (div_nonneg (Int.cast_nonneg hz) hdq.le), Rat.floor_intCast_div_natCast,
      Int.tdiv_eq_ediv_of_nonneg hz]
  · rw [if_neg (not_le.2 (div_neg_of_neg_of_pos (Int.cast_lt_zero.2 hz) hdq)),
      Rat.ceil_intCast_div_natCast, ← Int.tdiv_eq_ediv_of_nonneg (Int.neg_nonneg.2 hz.le),
      Int.neg_tdiv, neg_neg]

/-- What is less than one has a whole part less than one. -/
theorem tdiv_lt_one_iff {z : ℤ} {d : ℕ} (hd : 0 < d) : z.tdiv d < 1 ↔ z < d := by
  rcases le_or_gt 0 z with hz | hz
  · rw [Int.tdiv_eq_ediv_of_nonneg hz, Int.ediv_lt_iff_lt_mul (Int.natCast_pos.2 hd), one_mul]
  · have hnonneg : 0 ≤ (-z).tdiv d := Int.tdiv_nonneg (by omega) (by omega)
    rw [Int.neg_tdiv] at hnonneg
    omega

end Decimal

namespace Table

open Decimal

/-- **The node that a cell should name**, counted from zero: the cell is finite, and its whole
part is one of the numbers from one to the number of nodes. -/
def nodeOf? (count : Nat) (cell : Float) : Option Nat :=
  match (readDouble cell).value? .double with
  | some q => if 1 ≤ truncate q ∧ truncate q ≤ count then some (truncate q - 1).toNat else none
  | none => none

/-- **Cells name the nodes that they should name.** The program counts in units, and this says that
it comes to the same as the rational number. -/
theorem index?_eq (count : Nat) (cell : Float) : index? count cell = nodeOf? count cell := by
  have hone := BinaryFormat.double.unitsPerOne_pos
  unfold index? nodeOf?
  dsimp only
  rw [Reading.value?_eq]
  cases (readDouble cell).isFinite with
  | false => rfl
  | true =>
    have htrunc : truncate ((readDouble cell).signedUnits / BinaryFormat.double.unitsPerOne)
        = (readDouble cell).trunc .double := truncate_div _ hone
    have hlt : (readDouble cell).signedUnits < BinaryFormat.double.unitsPerOne
        ↔ (readDouble cell).trunc .double < 1 := (tdiv_lt_one_iff hone).symm
    rw [if_pos rfl]
    dsimp only
    rw [htrunc]
    by_cases hnode : 1 ≤ (readDouble cell).trunc .double ∧ (readDouble cell).trunc .double ≤ count
    · rw [if_pos hnode, if_neg]
      · exact congrArg some (by omega)
      · rw [hlt]
        rintro (h | h)
        · exact h rfl
        · omega
    · rw [if_neg hnode, if_pos (.inr (by rw [hlt]; omega))]

/-- A cell names a node of the graph or none. -/
theorem nodeOf?_lt {count v : Nat} {cell : Float} (h : nodeOf? count cell = some v) :
    v < count := by
  unfold nodeOf? at h
  split at h
  · split at h
    · cases h
      omega
    · cases h
  · cases h

end Table

end MinCut
