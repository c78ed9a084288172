import MinCut.Capacity.Recorded
import MinCut.Capacity.Signed

/-!
# Operations on words that do not overflow

Machine words wrap without a sign. An operation on words fits if its exact result is a word and
so is the opposite of that (`Operation.Fits`); then the word that it gives is its exact result
(`Operation.Fits.toInt_result`). A computation on the record is exact if all the operations on its
record fit (`Recorded.Exact`), which is decided step by step along its text.

That a computation is exact says nothing about other computations, not even about those that
come to the same value. It is for this reason that the functions of the program are defined as
the values of recorded ones, and are not only proved to be equal to them.
-/

namespace MinCut

variable {w : Nat}

namespace Operation

/-- The result in integers. -/
def exact : Operation (Signed w) → Int
  | add a b => a.toInt + b.toInt
  | sub a b => a.toInt - b.toInt
  | neg a => -a.toInt

/-- **The operation does not overflow**, nor would the opposite of its result. The second part
leaves out one word, the least one, which has no opposite: a program that may go on to negate what
it has computed must not come to it. -/
def Fits (o : Operation (Signed w)) : Prop :=
  -Signed.maxValue w ≤ o.exact ∧ o.exact ≤ Signed.maxValue w

/-- An operation that fits has its exact result. -/
theorem Fits.toInt_result {o : Operation (Signed w)} (h : o.Fits) (hw : 0 < w) :
    o.result.toInt = o.exact := by
  obtain ⟨hl, hu⟩ := h
  have hmin : Signed.minValue w ≤ o.exact := by
    rw [Signed.minValue_eq]
    omega
  cases o with
  | add a b => exact Signed.toInt_add hw hmin hu
  | sub a b => exact Signed.toInt_sub hw hmin hu
  | neg a => exact Signed.toInt_neg hw hu

end Operation

namespace Recorded

variable {β γ : Type}

/-- **No operation executed overflows.** -/
def Exact (c : Recorded (Signed w) β) : Prop := ∀ o ∈ c.operations, o.Fits

/-- What is not computed does not overflow. -/
theorem exact_pure (b : β) : (pure b : Recorded (Signed w) β).Exact := fun _ ho =>
  absurd ho List.not_mem_nil

/-- **Exactness is decided step by step.** For the second computation it is required at the value of
the first one only, which is where what has been proved of that value comes in. -/
theorem exact_bind {c : Recorded (Signed w) β} {k : β → Recorded (Signed w) γ} (hc : c.Exact)
    (hk : (k c.value).Exact) : (c >>= k).Exact := fun _ ho =>
  (List.mem_append.1 ho).elim (hc _) (hk _)

/-- An operation that fits is exact. -/
theorem exact_run {o : Operation (Signed w)} (ho : o.Fits) : (run o).Exact := fun o' ho' => by
  rwa [List.mem_singleton.1 ho']

end Recorded

end MinCut
