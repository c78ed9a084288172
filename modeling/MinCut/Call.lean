import MinCut.Snapshot

/-!
# Calls as data

Everything that can be asked of a graph, as a value. `Graph.answer` answers one
call and gives the graph afterwards, which is the graph before wherever the
call is refused; `Graph.answers` goes through a list of calls. What is proved
about whole histories of a graph is stated with these.
-/

namespace MinCut

/-- Something asked of a graph. -/
inductive Call (α : Type) where
  /-- Add nodes. -/
  | addNodes (count : Nat)
  /-- Add capacity from a node to the sink and from the source to it. -/
  | addTerminal (node : Nat) (sink source : α)
  /-- Join two nodes. -/
  | addEdge (edge : Edge α)
  /-- Compute the maximum flow. -/
  | solve
  /-- Tell the maximum flow. -/
  | flow
  /-- Tell the side of a node. -/
  | side (node : Nat)
  /-- Tell the side of every node. -/
  | sides
  /-- List the nodes on the source's side. -/
  | sourceCut
  /-- Tell the counts of the search. -/
  | stats
  /-- Tell the number of nodes. -/
  | nodeCount
  /-- Tell the number of arcs. -/
  | arcCount
  /-- Show all there is. -/
  | snapshot

/-- What a call gives when it is not refused. -/
inductive Answer (α : Type) where
  /-- Nothing but its effect. -/
  | done
  /-- A number of nodes or arcs, or of a node. -/
  | number (value : Nat)
  /-- A flow. -/
  | amount (value : α)
  /-- A flow, and what happened on the way. -/
  | solution (flow : α) (events : List (Event α))
  /-- A side. -/
  | side (value : Side)
  /-- What asking for the side of each node gives. -/
  | sides (values : List (Except (Fault α) Side))
  /-- Nodes. -/
  | nodes (values : List Nat)
  /-- Counts. -/
  | stats (value : Stats)
  /-- All there is. -/
  | snapshot (value : Snapshot α)

variable {α : Type} [Capacity α]

namespace Graph

/-- The effect of a call: its answer and the graph afterwards, or a refusal. -/
def call (g : Graph α) : Call α → Except (Fault α) (Answer α × Graph α)
  | .addNodes count => (fun (first, g) => (.number first, g)) <$> g.addNodes count
  | .addTerminal node sink source => (.done, ·) <$> g.addTerminal node sink source
  | .addEdge edge => (.done, ·) <$> g.addEdge edge
  | .solve => (fun s => (.solution s.flow s.events, s.graph)) <$> g.solve
  | .flow => (.amount ·, g) <$> g.flow
  | .side node => (.side ·, g) <$> g.side node
  | .sides => .ok (.sides ((List.range g.nodeCount).map g.side), g)
  | .sourceCut => (.nodes ·, g) <$> g.sourceCut
  | .stats => (.stats ·, g) <$> g.stats
  | .nodeCount => .ok (.number g.nodeCount, g)
  | .arcCount => .ok (.number g.arcCount, g)
  | .snapshot => .ok (.snapshot g.snapshot, g)

/-- **Answers a call.** A refused call leaves the graph as it was. -/
def answer (g : Graph α) (c : Call α) : Except (Fault α) (Answer α) × Graph α :=
  match g.call c with
  | .ok (a, g) => (.ok a, g)
  | .error fault => (.error fault, g)

/-- Answers calls one after the other. -/
def answers (g : Graph α) : List (Call α) → List (Except (Fault α) (Answer α)) × Graph α
  | [] => ([], g)
  | c :: calls =>
    let (a, g) := g.answer c
    let (as, g) := g.answers calls
    (a :: as, g)

end Graph

end MinCut
