import MinCut.Graph
import MinCut.Table.Basic

/-!
# Cuts from tables

`Table.cut` builds a graph from a terminal table and an edge table, row by row,
solves it and gives the source's side of the minimum cut with the flow. The
first fault ends it: the widths are looked at before anything else, then each
row of the terminal table, then each row of the edge table.
-/

namespace MinCut

namespace Table

/-- What comes of two tables. -/
structure Cut where
  /-- How many nodes the graph has. -/
  count : Nat
  /-- The nodes on the source's side, counted from one, in order. -/
  nodes : List Nat
  /-- The maximum flow. -/
  flow : Float
  /-- What happened in the search. -/
  events : List (Event Float)

/-- The node a cell of a row names. -/
def node (count : Nat) (column : Column) (row : Nat) (value : Float) :
    Except Fault Nat :=
  match index? count value with
  | some node => .ok node
  | none => .error (.index column value row count)

/-- What a graph does, with its faults as faults of the tables. -/
def ofGraph {β : Type} (result : Except (MinCut.Fault Float) β) : Except Fault β :=
  result.mapError .graph

/-- Adds what a row of the terminal table says. -/
def addTerminalRow (count : Nat) (g : Graph Float) (row : TerminalRow × Nat) :
    Except Fault (Graph Float) := do
  let v ← node count .node row.2 row.1.node
  ofGraph (g.addTerminal v row.1.sink row.1.source)

/-- Adds what a row of the edge table says. -/
def addEdgeRow (count : Nat) (g : Graph Float) (row : EdgeRow × Nat) :
    Except Fault (Graph Float) := do
  let tail ← node count .tail row.2 row.1.tail
  let head ← node count .head row.2 row.1.head
  ofGraph (g.addEdge ⟨tail, head, row.1.capacity, row.1.reverse⟩)

/-- **The graph that two tables describe.** -/
def graph (count : Nat) (terminals edges : Table) : Except Fault (Graph Float) := do
  let terminals ← terminals.terminalRows
  let edges ← edges.edgeRows
  let (_, g) ← ofGraph (Graph.empty.addNodes count)
  let g ← (terminals.zipIdx 1).foldlM (addTerminalRow count) g
  (edges.zipIdx 1).foldlM (addEdgeRow count) g

/-- Asks for the side of a node, and notes the node if it is on the source's side. -/
def noteSource (g : Graph Float) (nodes : Array Nat) (node : Nat) :
    Except Fault (Array Nat) := do
  let side ← ofGraph (g.side node)
  return if side = .source then nodes.push (node + 1) else nodes

/-- **The minimum cut of the graph that two tables describe.** -/
def cut (count : Nat) (terminals edges : Table) : Except Fault Cut := do
  let g ← graph count terminals edges
  let solution ← ofGraph g.solve
  let nodes ← (List.range count).foldlM (noteSource solution.graph) #[]
  return ⟨count, nodes.toList, solution.flow, solution.events⟩

/-- The log of a cut: that of the search, and a line on the result. -/
def Cut.lines (c : Cut) : List String :=
  c.events.map Event.line ++
    ["DEBUG table cut: " ++ c.nodes.length.repr ++ " of " ++ c.count.repr
      ++ " nodes on the source side, flow "
      ++ Decimal.Layout.plain.text .double (readDouble c.flow)]

end Table

end MinCut
