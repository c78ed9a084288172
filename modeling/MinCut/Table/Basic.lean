import MinCut.Capacity.Floating
import MinCut.Fault

/-!
# Tables

A graph can be given as two numeric tables. Each row of the first names a node
and its capacities toward the sink and from the source; each row of the second
names the two nodes of an edge and its capacity each way. Nodes are counted
from one, and a node's index is a number like all others: what stands behind
the point is dropped (`Table.index?`).

`Table.terminalRows` and `Table.edgeRows` read a table of the right width. The
faults a pair of tables can have are `Table.Fault`.
-/

namespace MinCut

/-- Rows of numbers, all of one width. -/
structure Table where
  /-- How many columns there are. -/
  width : Nat
  /-- The rows, in order. -/
  rows : List (Vector Float width)

namespace Table

/-- A column that holds indices of nodes. -/
inductive Column where
  /-- The node of a row of the terminal table. -/
  | node
  /-- The node an edge starts at. -/
  | tail
  /-- The node an edge leads to. -/
  | head
deriving DecidableEq

/-- How a column is named in messages. -/
def Column.text : Column → String
  | node => "node"
  | tail => "from"
  | head => "to"

/-- How the table of a column is named in messages. -/
def Column.tableText : Column → String
  | node => "terminal weight"
  | tail | head => "edge weight"

/-- Why a cut cannot be computed from two tables. -/
inductive Fault where
  /-- The terminal table has so many columns, not three. -/
  | terminalWidth (width : Nat)
  /-- The edge table has so many columns, not four. -/
  | edgeWidth (width : Nat)
  /-- A cell names no node of `count`; rows are counted from one. -/
  | index (column : Column) (value : Float) (row count : Nat)
  /-- The graph refuses what a row says. -/
  | graph (fault : MinCut.Fault Float)

/-- The report of a fault. -/
def Fault.report : Fault → Error
  | terminalWidth width => .invalidInput
    s!"terminal weight table needs 3 columns (node, sink, source), got {width}"
  | edgeWidth width => .invalidInput
    s!"edge weight table needs 4 columns (from, to, capacity, reverse_capacity), got {width}"
  | index column value row count => .invalidInput <|
    column.text ++ " index " ++ Decimal.Layout.plain.text .double (readDouble value)
      ++ " out of bounds in " ++ column.tableText ++ " table row " ++ row.repr
      ++ " (expected 1..=" ++ count.repr ++ ")"
  | graph fault => fault.report

/-- What a row of the terminal table says. -/
structure TerminalRow where
  /-- The node, counted from one. -/
  node : Float
  /-- The capacity from the node to the sink. -/
  sink : Float
  /-- The capacity from the source to the node. -/
  source : Float

/-- What a row of the edge table says. -/
structure EdgeRow where
  /-- The node the edge starts at, counted from one. -/
  tail : Float
  /-- The node it leads to, counted from one. -/
  head : Float
  /-- The capacity from tail to head. -/
  capacity : Float
  /-- The capacity from head to tail. -/
  reverse : Float

/-- Reads a terminal table, which has three columns. -/
def terminalRows (t : Table) : Except Fault (List TerminalRow) :=
  if h : t.width = 3 then .ok (t.rows.map fun row => ⟨row[0], row[1], row[2]⟩)
  else .error (.terminalWidth t.width)

/-- Reads an edge table, which has four columns. -/
def edgeRows (t : Table) : Except Fault (List EdgeRow) :=
  if h : t.width = 4 then .ok (t.rows.map fun row => ⟨row[0], row[1], row[2], row[3]⟩)
  else .error (.edgeWidth t.width)

/-- **The node a cell names**, counted from zero: the cell must be finite and not less
than one, and its whole part must not exceed the number of nodes. -/
def index? (count : Nat) (value : Float) : Option Nat :=
  let x := readDouble value
  if ¬x.isFinite ∨ x.signedUnits < Decimal.BinaryFormat.double.unitsPerOne
      ∨ count < x.trunc .double then none
  else some ((x.trunc .double).toNat - 1)

end Table

end MinCut
