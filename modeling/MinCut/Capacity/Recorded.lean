import MinCut.Capacity.Basic

/-!
# Arithmetic on the record

Amounts are added, subtracted and negated without a check, in types whose range is finite. A
right result does not show that nothing has left the range on the way, since a machine word may
leave it and come back. So what computes with amounts here does it *on the record*: a `Recorded`
value comes with the list of the operations that have been executed for it, each with its
operands, in their order.

Every such computation has two names, one for the computation and one for its result:
`Residual.push` is defined as the value of `Residual.pushing`, `absorb` as that of `absorbing`,
and so on up to a whole turn of the search. There is one text for both, so that the record is
that of the program itself. The operations are added to it one by one, by `Recorded.run`, which is
the only place where an amount is added, subtracted or negated without a check.
-/

namespace MinCut

/-- An operation on amounts that does not check its result. -/
inductive Operation (α : Type) where
  | add (a b : α)
  | sub (a b : α)
  | neg (a : α)

/-- What an operation gives. In a machine type this may be the exact result reduced to the range,
and nothing shows whether it is. -/
def Operation.result {α : Type} [Capacity α] : Operation α → α
  | add a b => a + b
  | sub a b => a - b
  | neg a => -a

/-- **A value with the operations executed for it.** -/
structure Recorded (α β : Type) where
  /-- What has been computed. -/
  value : β
  /-- The operations on amounts, in order. -/
  operations : List (Operation α)

namespace Recorded

variable {α β γ : Type}

instance : Monad (Recorded α) where
  pure b := ⟨b, []⟩
  bind c k := ⟨(k c.value).value, c.operations ++ (k c.value).operations⟩

/-- Executes an operation. -/
def run [Capacity α] (o : Operation α) : Recorded α α := ⟨o.result, [o]⟩

/-- A value for which nothing need be executed. -/
@[simp] theorem value_pure (b : β) : (pure b : Recorded α β).value = b := rfl

/-- The second computation goes on from the value of the first. -/
@[simp] theorem value_bind (c : Recorded α β) (k : β → Recorded α γ) :
    (c >>= k).value = (k c.value).value := rfl

@[simp] theorem value_run [Capacity α] (o : Operation α) : (run o).value = o.result := rfl

/-- Two computations execute the operations of both. -/
theorem length_operations_bind (c : Recorded α β) (k : β → Recorded α γ) :
    (c >>= k).operations.length = c.operations.length + (k c.value).operations.length :=
  List.length_append

/-- A loop over a list whose steps execute equally many operations. -/
theorem length_operations_foldlM {step : β → γ → Recorded α β} {count : Nat}
    (h : ∀ b c, (step b c).operations.length = count) (l : List γ) (b : β) :
    (l.foldlM step b).operations.length = count * l.length := by
  induction l generalizing b with
  | nil => rfl
  | cons c l ih =>
    rw [List.foldlM_cons, length_operations_bind, h, ih, List.length_cons, Nat.mul_succ,
      Nat.add_comm]

/-- A loop over a list computes what its steps compute. -/
theorem value_foldlM (step : β → γ → Recorded α β) (l : List γ) (b : β) :
    (l.foldlM step b).value = l.foldl (fun b c => (step b c).value) b := by
  induction l generalizing b with
  | nil => rfl
  | cons c l ih => exact ih _

end Recorded

end MinCut
