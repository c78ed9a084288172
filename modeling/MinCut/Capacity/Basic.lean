/-!
# Capacities

A network is built over one numeric type, and the search needs little of it:
zero, sums, differences, a sign change and the order. Three more things depend
on the type. `checkedAdd` says when a sum leaves the finite range, which is what
keeps the running total of a network honest; `text` writes a capacity in
messages; `units` counts in the smallest positive capacity, which is what bounds
the number of rounds of a search.

Nothing is assumed about these operations. The machine integers wrap, the
floating-point types round, and what the search may rely on is proved where it
is needed, for the types where it holds.
-/

namespace MinCut

/-- **A numeric type that capacities can be taken from.** The class holds operations and no laws, so
that the floating-point types are instances of it as well as the integers. -/
class Capacity (α : Type) extends Zero α, Add α, Sub α, Neg α, LT α, LE α where
  /-- The strict order can be tested. -/
  decidableLT : DecidableLT α
  /-- The order can be tested. -/
  decidableLE : DecidableLE α
  /-- The sum, unless it leaves the finite range of the type. -/
  checkedAdd : α → α → Option α
  /-- How a capacity is written in messages. -/
  text : α → String
  /-- How many times the smallest positive capacity goes into a capacity. -/
  units : α → Nat

namespace Capacity

attribute [reducible, instance] decidableLT decidableLE

variable {α : Type} [Capacity α]

/-- The smaller of two capacities, the first one where neither is. -/
def smaller (a b : α) : α := if b < a then b else a

/-- The smallest capacity of a list and one more. -/
def smallest (a : α) (l : List α) : α := l.foldl smaller a

/-- One capacity is the smallest of its kind. -/
@[simp] theorem smallest_nil (a : α) : smallest a [] = a := rfl

/-- The smallest of a list is found from the front. -/
@[simp] theorem smallest_cons (a b : α) (l : List α) :
    smallest a (b :: l) = smallest (smaller a b) l := rfl

end Capacity

end MinCut
