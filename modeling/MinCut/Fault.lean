import MinCut.Capacity.Basic
import MinCut.Error

/-!
# Faults

The reasons for which a call on a graph is refused, with the values at fault.
`Fault.report` words each as an error report.
-/

namespace MinCut

/-- Why a call on a graph is refused. -/
inductive Fault (α : Type) where
  /-- The node does not exist: the graph has `count` nodes. -/
  | nodeOutOfRange (node count : Nat)
  /-- The capacity is negative or no number. -/
  | negative (capacity : α)
  /-- Two capacities would take the total out of the finite range. -/
  | totalOverflow (first second total : α)
  /-- The graph has been solved and takes nothing new. -/
  | frozen
  /-- The graph has been solved before. -/
  | alreadySolved
  /-- The graph has not been solved. -/
  | notSolved
  /-- The search used up its turns. Over integers no search does. Over floating-point numbers
  rounding could make one go on for ever. This fault stands for such a search, which would give no
  answer at all. -/
  | unfinished
deriving DecidableEq

/-- The report of a fault. -/
def Fault.report {α : Type} [Capacity α] : Fault α → Error
  | nodeOutOfRange node count => .nodeOutOfRange node count
  | negative capacity =>
    .invalidCapacity s!"{Capacity.text capacity} is not a non-negative number"
  | totalOverflow first second total =>
    .invalidCapacity (Capacity.text first ++ " + " ++ Capacity.text second
      ++ " overflows the graph's capacity total " ++ Capacity.text total)
  | frozen => .invalidState "graph is frozen after maxflow"
  | alreadySolved => .invalidState "maxflow already computed"
  | notSolved => .invalidState "maxflow has not been computed"
  | unfinished => .unfinished

end MinCut
