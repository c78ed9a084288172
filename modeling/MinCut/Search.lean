import MinCut.Augmentation
import MinCut.Event
import MinCut.Forest.Adoption
import MinCut.Forest.Growth
import MinCut.Turn

/-!
# The search

A search holds the residual capacities and the forest, and goes on in turns.
One turn scans one node. If the scan finds a bridge, the path it closes is
augmented, the nodes cut off are adopted or expelled, and the next turn scans
the same node again, as long as it stays in a tree. The search is done when no
node is active: no path is left, and the trees show a minimum cut.

`Search.turn` is one turn, `Search.run` a bounded number of them. A turn computes on the
record (`Search.turning`), and what it computes there is the turn. How many turns are
enough is read off the residual capacities (`Residual.turns`): each
augmentation sends at least the smallest positive amount out of the source's
trees, and between two augmentations no node is scanned twice without finding
something.
-/

namespace MinCut

/-- A search in progress. -/
structure Search (α : Type) (n m : Nat) where
  /-- What is left of the capacities. -/
  residual : Residual α n m
  /-- The trees. -/
  forest : Forest n m
  /-- The node whose scan gave the last path. -/
  current : Option (Fin n)
  /-- What has been done. -/
  stats : Stats
  /-- What has happened, the latest first. -/
  events : List (Event α)

variable {α : Type} [Capacity α] {n m : Nat}

namespace Residual

/-- A bound on the number of augmentations: how many smallest amounts the source
can send. -/
def supply (r : Residual α n m) : Nat :=
  ((List.finRange n).map fun v => Capacity.units (r.excess v)).foldr (· + ·) 0

/-- How many turns a search takes at most. -/
def turns (r : Residual α n m) : Nat := r.supply + (r.supply + 1) * n + 1

end Residual

namespace Search

/-- The search on given capacities before its first turn. -/
def start (r : Residual α n m) : Search α n m where
  residual := r
  forest := .initial r.support
  current := none
  stats := .zero
  events := []

/-- **Augments the path that a bridge closes** and mends the trees. The node
scanned stays flagged, so that the adoption does not queue it a second time. -/
def augmenting (T : Topology n m) (v : Fin n) (bridge : Arc m) :
    Search α n m → Recorded α (Search α n m)
  | ⟨residual, forest, _, stats, events⟩ => do
    let path := forest.path T bridge
    let (amount, residual) ← residual.augmenting path
    let cut := (forest.flag v true).cut T residual.support path
    let repair := cut.adopt T residual.support
    return {
      residual
      forest := repair.forest
      current := some v
      stats :=
        { stats with
          augmentations := stats.augmentations + 1
          adopted := stats.adopted + repair.adopted
          expelled := stats.expelled + repair.expelled.length }
      events :=
        repair.expelled.map (fun w => .expelled w)
          ++ .augmented amount bridge.number (T.tail bridge) (T.head bridge) :: events }

@[inherit_doc augmenting]
def augment (T : Topology n m) (v : Fin n) (bridge : Arc m) (s : Search α n m) : Search α n m :=
  (augmenting T v bridge s).value

/-- **One turn of the search.** -/
def turning (T : Topology n m) : Search α n m → Recorded α (Turn (Search α n m))
  | ⟨residual, forest, current, stats, events⟩ =>
    match forest.select current with
    | (none, forest) => return .done ⟨residual, forest, none, stats, events⟩
    | (some v, forest) => do
      let (bridge?, forest) := forest.grow T residual.support v
      let stats := { stats with growthSteps := stats.growthSteps + 1 }
      let s : Search α n m := ⟨residual, forest.tick, none, stats, events⟩
      match bridge? with
      | none => return .more s
      | some bridge => return .more (← augmenting T v bridge s)

@[inherit_doc turning]
def turn (T : Topology n m) (s : Search α n m) : Turn (Search α n m) := (turning T s).value

/-- Takes turns until the search is done, at most a given number of them. -/
def run (T : Topology n m) : Nat → Search α n m → Option (Search α n m)
  | 0, _ => none
  | turns + 1, s =>
    match turn T s with
    | .done s => some s
    | .more s => run T turns s

end Search

end MinCut
