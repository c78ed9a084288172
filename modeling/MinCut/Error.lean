/-!
# Error reports

What a caller is told when a call is refused: one of four kinds of report, each
with its own message. Reports are compared by kind and content. A fifth kind stands
for a search without an end (`Error.unfinished`).

The causes behind the reports are typed where they arise (`Fault` for networks,
`Table.Fault` for tables); each knows its report.
-/

namespace MinCut

/-- A refused call, as its caller sees it. -/
inductive Error where
  /-- A node that the network does not have. -/
  | nodeOutOfRange (node count : Nat)
  /-- A capacity that no network accepts, or not this one. -/
  | invalidCapacity (reason : String)
  /-- A call that does not fit the stage the network is in. -/
  | invalidState (reason : String)
  /-- A malformed table. -/
  | invalidInput (reason : String)
  /-- A search that was stopped before it came to its end. It stands for the report that would be
  missing if such a search went on for ever. -/
  | unfinished
deriving DecidableEq

/-- The message of a report. -/
def Error.message : Error → String
  | nodeOutOfRange node count =>
    s!"node index {node} out of range for graph with {count} nodes"
  | invalidCapacity reason => s!"invalid capacity: {reason}"
  | invalidState reason => s!"invalid state: {reason}"
  | invalidInput reason => s!"invalid input: {reason}"
  | unfinished => "maxflow did not come to an end"

end MinCut
