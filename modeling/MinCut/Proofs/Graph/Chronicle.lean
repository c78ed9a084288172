import MinCut.Proofs.Graph.Optimality
import MinCut.Proofs.Search.Chronicle

/-!
# The story a solution tells

Solving a graph gives the flow, and it tells what has happened on the way and counts some
of it. These are three accounts of one search, and they agree
(`Solution.Chronicled`): the flow is what was there before with all amounts sent, and the
counts are those of the events. How much work there has been is bounded by the number of
augmentations, and that by the flow they have sent.
-/

namespace MinCut

variable {w : Nat} {net : Network (Signed w)}
variable {final : Search (Signed w) net.nodeCount net.edgeCount}

/-- **Flow, events and counts of a solution agree**, for a network of `n` nodes with some
flow before it has been solved. -/
structure Solution.Chronicled (n : Nat) (before : Int) (stats : Stats)
    (solution : Solution (Signed w)) : Prop where
  /-- The counts are those that the graph tells when it is asked. -/
  stats_eq : solution.graph.stats = .ok stats
  /-- The flow has grown by the amounts sent. -/
  flow_eq : solution.flow.toInt
    = before + ((amounts solution.events).map Signed.toInt).sum
  /-- Each of them is something. -/
  one_le_amount {x : Signed w} : x ∈ amounts solution.events → 1 ≤ x.toInt
  /-- The augmentations are the events that tell of one. -/
  augmentations_eq : stats.augmentations = (amounts solution.events).length
  /-- The expelled nodes are those that events tell of. -/
  expelled_eq : stats.expelled = (expulsions solution.events).length
  /-- The scans are the time that has passed. -/
  growthSteps_eq : stats.growthSteps = solution.graph.snapshot.time
  /-- No node is expelled twice between two augmentations. -/
  apart : Apart solution.events
  /-- Each augmentation has sent at least one unit. -/
  augmentations_le : (stats.augmentations : Int) ≤ solution.flow.toInt - before
  /-- Between two of them no more nodes are scanned than there are. -/
  growthSteps_le : stats.growthSteps ≤ stats.augmentations + (stats.augmentations + 1) * n
  /-- No more orphans are settled after one of them than there are nodes. -/
  settled_le : stats.adopted + stats.expelled ≤ stats.augmentations * n

/-- **A network whose solution accounts for its search.** -/
def Network.Chronicled (net : Network (Signed w)) : Prop :=
  ∃ solution stats, (Graph.building net).solve = .ok solution
    ∧ solution.Chronicled net.nodeCount net.flow.toInt stats

namespace Graph

end Graph

end MinCut
