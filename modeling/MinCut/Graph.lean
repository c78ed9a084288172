import MinCut.Network.Basic
import MinCut.Search

/-!
# Graphs

A graph goes through two stages. First it is built: nodes, terminal capacities
and edges are added. Then it is solved, once, and from then on it can be asked
for the flow, the side each node is on, and the counts of the search. A call
that does not fit the stage is refused.

The stage is part of the value: a solved graph carries the search that has
ended, a graph under construction has none, and no call can tell the flow
before there is one.
-/

namespace MinCut

/-- A network with the stage it is in. -/
inductive Graph (α : Type) where
  /-- Under construction. -/
  | building (net : Network α)
  /-- Solved, by a search that has ended. -/
  | solved (net : Network α) (final : Search α net.nodeCount net.edgeCount)

/-- What solving a graph gives. -/
structure Solution (α : Type) where
  /-- The solved graph. -/
  graph : Graph α
  /-- The maximum flow. -/
  flow : α
  /-- What happened, in order. -/
  events : List (Event α)

variable {α : Type} [Capacity α]

/-- **Runs the search on a network** to its end, within the number of turns it
can take. -/
def Network.search (net : Network α) : Option (Search α net.nodeCount net.edgeCount) :=
  Search.run net.topology net.residual.turns (.start net.residual)

namespace Graph

/-- The network of a graph. -/
def network : Graph α → Network α
  | building net => net
  | solved net _ => net

/-- The graph without nodes. -/
def empty : Graph α := building .empty

/-- The graph without nodes, with room set aside for some. -/
def withRoom (nodes edges : Nat) : Graph α := building (.withRoom nodes edges)

/-- How many nodes there are. -/
def nodeCount (g : Graph α) : Nat := g.network.nodeCount

/-- How many arcs there are, two for each edge. -/
def arcCount (g : Graph α) : Nat := 2 * g.network.edgeCount

/-! ## Building -/

/-- Adds nodes, and gives the number of the first. -/
def addNodes (g : Graph α) (count : Nat) : Except (Fault α) (Nat × Graph α) :=
  match g with
  | building net => .ok (net.nodeCount, building (net.addNodes count))
  | solved .. => .error .frozen

/-- Adds capacity from a node to the sink and from the source to it. -/
def addTerminal (g : Graph α) (node : Nat) (sink source : α) :
    Except (Fault α) (Graph α) :=
  match g with
  | building net => building <$> net.addTerminal node sink source
  | solved .. => .error .frozen

/-- Joins two nodes by an edge. -/
def addEdge (g : Graph α) (edge : Edge α) : Except (Fault α) (Graph α) :=
  match g with
  | building net => building <$> net.addEdge edge
  | solved .. => .error .frozen

/-! ## Solving -/

/-- **Computes the maximum flow**, which can be done once. -/
def solve (g : Graph α) : Except (Fault α) (Solution α) :=
  match g with
  | building net =>
    match net.search with
    | some final =>
      .ok {
        graph := solved net final
        flow := final.residual.flow
        events :=
          .started net.nodeCount (2 * net.edgeCount)
            :: (.finished final.residual.flow final.stats :: final.events).reverse }
    | none => .error .unfinished
  | solved .. => .error .alreadySolved

/-- **What solving a graph tells** is what its search has told, between the beginning and
the end. -/
theorem solve_eq_ok {net : Network α} {final : Search α net.nodeCount net.edgeCount}
    (h : net.search = some final) : (building net).solve = .ok {
      graph := solved net final
      flow := final.residual.flow
      events := .started net.nodeCount (2 * net.edgeCount)
        :: (.finished final.residual.flow final.stats :: final.events).reverse } := by
  unfold solve
  dsimp only
  rw [h]

/-- A graph is solved by the search on its network. -/
theorem solve_building {net : Network α} {final : Search α net.nodeCount net.edgeCount}
    (h : net.search = some final) : ∃ solution, (building net).solve = .ok solution
      ∧ solution.graph = solved net final ∧ solution.flow = final.residual.flow :=
  ⟨_, solve_eq_ok h, rfl, rfl⟩

/-- It is not solved only if that search has used up its turns. -/
theorem solve_of_search_eq_none {net : Network α} (h : net.search = none) :
    (building net).solve = .error .unfinished := by
  unfold solve
  dsimp only
  rw [h]

/-! ## Asking -/

/-- The maximum flow. -/
def flow (g : Graph α) : Except (Fault α) α :=
  match g with
  | building _ => .error .notSolved
  | solved _ final => .ok final.residual.flow

/-- **The side of the minimum cut a node is on.** Nodes outside both trees count
to the sink. -/
def side (g : Graph α) (node : Nat) : Except (Fault α) Side :=
  match g with
  | building net =>
    if node < net.nodeCount then .error .notSolved
    else .error (.nodeOutOfRange node net.nodeCount)
  | solved net final =>
    if h : node < net.nodeCount then .ok ((final.forest.side? ⟨node, h⟩).getD .sink)
    else .error (.nodeOutOfRange node net.nodeCount)

/-- The nodes on the source's side of the minimum cut, in order. -/
def sourceCut (g : Graph α) : Except (Fault α) (List Nat) :=
  match g with
  | building _ => .error .notSolved
  | solved net final =>
    .ok (((List.finRange net.nodeCount).filter fun v =>
      final.forest.side? v = some .source).map Fin.val)

/-- The counts of the search. -/
def stats (g : Graph α) : Except (Fault α) Stats :=
  match g with
  | building _ => .error .notSolved
  | solved _ final => .ok final.stats

end Graph

end MinCut
