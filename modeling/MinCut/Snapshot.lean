import MinCut.Graph

/-!
# Snapshots

Everything a graph holds, laid out as plain data: what the search has noted
about each node, where each arc leads and what is left on it, the waiting
lines and the counts. The form is the same before and after the search; before
it, all nodes are free and nothing waits.
-/

namespace MinCut

/-- How a node hangs in its tree, with arcs by number. -/
inductive Parent where
  | terminal
  | arc (number : Nat)
  | orphan
deriving DecidableEq

/-- A link with its arc by number. -/
def Link.parent {m : Nat} : Link m → Parent
  | terminal => .terminal
  | arc a => .arc a.number
  | orphan => .orphan

/-- What is known of a node. -/
structure NodeState (α : Type) where
  /-- The arcs that leave it, by number. -/
  arcs : List Nat
  /-- The tree it is in. -/
  side : Option Side
  /-- How it hangs there. -/
  parent : Option Parent
  /-- What is left at its terminals, signed toward the source. -/
  excess : α
  /-- When its distance was last known to be right. -/
  stamp : Nat
  /-- How many links lead to the terminal. -/
  distance : Nat
  /-- Whether it is active. -/
  active : Bool

/-- What is known of an arc. -/
structure ArcState (α : Type) where
  /-- The node it leads to. -/
  head : Nat
  /-- The number of its sister. -/
  sister : Nat
  /-- What is left on it. -/
  residual : α

/-- All a graph holds. -/
structure Snapshot (α : Type) where
  /-- The nodes, by number. -/
  nodes : List (NodeState α)
  /-- The arcs, by number. -/
  arcs : List (ArcState α)
  /-- The flow so far. -/
  flow : α
  /-- The sum of all capacities accepted. -/
  total : α
  /-- Whether the graph has been solved. -/
  isSolved : Bool
  /-- The nodes to be scanned. -/
  active : List Nat
  /-- The nodes to be adopted. -/
  orphans : List Nat
  /-- How many scans there have been. -/
  time : Nat
  /-- The counts of the search. -/
  stats : Stats

/-- The forest in which no search has taken place. -/
def Forest.bare (n m : Nat) : Forest n m where
  labels := Vector.replicate n ⟨.free, 0, 0, false⟩
  queue := .empty
  orphans := .empty
  time := 0

variable {α : Type} {n m : Nat}

/-- The state of a node. -/
def NodeState.of (T : Topology n m) (r : Residual α n m) (f : Forest n m) (v : Fin n) :
    NodeState α where
  arcs := (T.out v).map Arc.number
  side := f.side? v
  parent := (f.link? v).map Link.parent
  excess := r.excess v
  stamp := (f.label v).stamp
  distance := (f.label v).distance
  active := (f.label v).active

/-- The state of an arc. -/
def ArcState.of (T : Topology n m) (r : Residual α n m) (a : Arc m) : ArcState α where
  head := T.head a
  sister := a.sister.number
  residual := r.residual a

/-- All there is in a network, with given residual capacities and forest. -/
def Network.snapshot [Capacity α] (net : Network α)
    (r : Residual α net.nodeCount net.edgeCount)
    (f : Forest net.nodeCount net.edgeCount) (isSolved : Bool) (stats : Stats) :
    Snapshot α where
  nodes := (List.finRange net.nodeCount).map (NodeState.of net.topology r f)
  arcs := (Arc.all net.edgeCount).map (ArcState.of net.topology r)
  flow := r.flow
  total := net.total
  isSolved := isSolved
  active := f.queue.toList.map Fin.val
  orphans := f.orphans.toList.map Fin.val
  time := f.time
  stats := stats

/-- **All a graph holds.** -/
def Graph.snapshot [Capacity α] : Graph α → Snapshot α
  | building net => net.snapshot net.residual (.bare _ _) false .zero
  | solved net final => net.snapshot final.residual final.forest true final.stats

end MinCut
