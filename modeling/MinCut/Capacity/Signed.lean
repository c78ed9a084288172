import MinCut.Capacity.Basic

/-!
# Signed machine integers

`Signed w` is the type of two's complement integers of `w` bits. Sums,
differences and sign changes wrap; the order is that of the integers the words
stand for, which `Signed.toInt` reads.

The lemmas say when wrapping does not show: an operation whose exact result
fits the range has that result (`Signed.toInt_add`, `Signed.toInt_sub`,
`Signed.toInt_neg`). `Signed.checkedAdd_eq_some_iff` reads the checked sum the
same way.
-/

namespace MinCut

/-- **Two's complement integers of `w` bits.** The width is a parameter, so that what is proved for
these integers holds of those of 32 and of 64 bits alike. -/
@[ext] structure Signed (w : Nat) where
  /-- The bits of the word. -/
  bits : BitVec w
deriving DecidableEq

namespace Signed

variable {w : Nat}

/-- The integer a word stands for. -/
def toInt (a : Signed w) : Int := a.bits.toInt

/-- The word of an integer, which is taken modulo `2 ^ w`. -/
def ofInt (i : Int) : Signed w := ⟨BitVec.ofInt w i⟩

/-- The largest integer of `w` bits. -/
def maxValue (w : Nat) : Int := Int.pow 2 (w - 1) - 1

/-- The smallest integer of `w` bits. -/
def minValue (w : Nat) : Int := -Int.pow 2 (w - 1)

instance : Zero (Signed w) := ⟨⟨0⟩⟩

instance : Add (Signed w) := ⟨fun a b => ⟨a.bits + b.bits⟩⟩

instance : Sub (Signed w) := ⟨fun a b => ⟨a.bits - b.bits⟩⟩

instance : Neg (Signed w) := ⟨fun a => ⟨-a.bits⟩⟩

instance : LT (Signed w) := ⟨fun a b => a.toInt < b.toInt⟩

instance : LE (Signed w) := ⟨fun a b => a.toInt ≤ b.toInt⟩

/-- The sum, if the exact sum has a word of its own. -/
def checkedAdd (a b : Signed w) : Option (Signed w) :=
  if minValue w ≤ a.toInt + b.toInt ∧ a.toInt + b.toInt ≤ maxValue w then
    some (ofInt (a.toInt + b.toInt))
  else none

instance : Capacity (Signed w) where
  decidableLT := fun a b => inferInstanceAs (Decidable (a.toInt < b.toInt))
  decidableLE := fun a b => inferInstanceAs (Decidable (a.toInt ≤ b.toInt))
  checkedAdd := checkedAdd
  text := fun a => a.toInt.repr
  units := fun a => a.toInt.toNat

/-- Two words are the same if they stand for the same integer. -/
theorem toInt_inj {a b : Signed w} : a.toInt = b.toInt ↔ a = b := by
  rw [toInt, toInt, BitVec.toInt_inj, Signed.ext_iff]

@[simp] theorem toInt_zero : (0 : Signed w).toInt = 0 := BitVec.toInt_zero

/-- Words are ordered as the integers that they stand for. -/
theorem lt_iff {a b : Signed w} : a < b ↔ a.toInt < b.toInt := Iff.rfl

theorem le_iff {a b : Signed w} : a ≤ b ↔ a.toInt ≤ b.toInt := Iff.rfl

/-- The smaller of two words stands for the smaller integer. -/
theorem toInt_ite_lt (a b : Signed w) :
    (if a < b then a else b).toInt = min a.toInt b.toInt := by
  split <;> rename_i h <;> rw [lt_iff] at h <;> omega

/-- Every word stands for an integer of its range. -/
theorem minValue_le_toInt (a : Signed w) : minValue w ≤ a.toInt :=
  BitVec.le_toInt a.bits

@[inherit_doc minValue_le_toInt]
theorem toInt_le_maxValue (a : Signed w) : a.toInt ≤ maxValue w :=
  Int.le_sub_one_of_lt BitVec.toInt_lt

/-- The range has one integer more below zero than above. -/
theorem minValue_eq (w : Nat) : minValue w = -(maxValue w + 1) := by
  simp only [minValue, maxValue]
  omega

/-- Reducing modulo `2 ^ w` leaves the integers of the range alone. -/
theorem bmod_eq_self {i : Int} (hw : 0 < w) (hl : minValue w ≤ i)
    (hu : i ≤ maxValue w) : i.bmod (Nat.pow 2 w) = i := by
  obtain ⟨w, rfl⟩ : ∃ k, w = k + 1 := ⟨w - 1, by omega⟩
  have hpow : (Nat.pow 2 (w + 1) : Int) = Int.pow 2 w * 2 :=
    (Int.natCast_pow 2 (w + 1)).trans (Int.pow_succ 2 w)
  simp only [minValue, maxValue, Nat.add_sub_cancel] at hl hu
  refine Int.bmod_eq_of_le_mul_two ?_ ?_ <;> omega

/-- The word of an integer of the range stands for that integer. -/
theorem toInt_ofInt {i : Int} (hw : 0 < w) (hl : minValue w ≤ i)
    (hu : i ≤ maxValue w) : (ofInt i : Signed w).toInt = i :=
  (BitVec.toInt_ofInt i).trans (bmod_eq_self hw hl hu)

/-- A word is the word of the integer it stands for. -/
theorem ofInt_toInt (hw : 0 < w) (a : Signed w) : ofInt a.toInt = a :=
  toInt_inj.1 (toInt_ofInt hw a.minValue_le_toInt a.toInt_le_maxValue)

/-- **A sum that fits is exact.** -/
theorem toInt_add {a b : Signed w} (hw : 0 < w)
    (hl : minValue w ≤ a.toInt + b.toInt) (hu : a.toInt + b.toInt ≤ maxValue w) :
    (a + b).toInt = a.toInt + b.toInt :=
  (BitVec.toInt_add a.bits b.bits).trans (bmod_eq_self hw hl hu)

/-- **A difference that fits is exact.** -/
theorem toInt_sub {a b : Signed w} (hw : 0 < w)
    (hl : minValue w ≤ a.toInt - b.toInt) (hu : a.toInt - b.toInt ≤ maxValue w) :
    (a - b).toInt = a.toInt - b.toInt :=
  BitVec.toInt_sub.trans (bmod_eq_self hw hl hu)

/-- **A sign change is exact** wherever the opposite integer fits. -/
theorem toInt_neg {a : Signed w} (hw : 0 < w) (hu : -a.toInt ≤ maxValue w) :
    (-a).toInt = -a.toInt := by
  refine BitVec.toInt_neg.trans (bmod_eq_self hw ?_ hu)
  have := a.toInt_le_maxValue
  have hbits : a.bits.toInt = a.toInt := rfl
  rw [minValue_eq, hbits]
  omega

/-- **The checked sum is the exact sum**, where that fits. -/
theorem checkedAdd_eq_some_iff {a b c : Signed w} (hw : 0 < w) :
    Capacity.checkedAdd a b = some c ↔ c.toInt = a.toInt + b.toInt := by
  show checkedAdd a b = some c ↔ _
  unfold checkedAdd
  constructor
  · intro h
    split at h
    · rename_i hr
      rw [← Option.some.inj h, toInt_ofInt hw hr.1 hr.2]
    · contradiction
  · intro h
    rw [← h, if_pos ⟨c.minValue_le_toInt, c.toInt_le_maxValue⟩]
    exact congrArg some (ofInt_toInt hw c)

end Signed

end MinCut
