import MinCut.Proofs.Arena.Arrangement
import MinCut.Proofs.Graph.Augmentation
import MinCut.Proofs.Graph.Distances
import MinCut.Proofs.Graph.Flow
import MinCut.Proofs.Graph.Ledger
import MinCut.Proofs.Graph.Queue
import MinCut.Proofs.Graph.Scaling
import MinCut.Proofs.Graph.Symmetry
import MinCut.Proofs.Graph.Terminals
import MinCut.Proofs.Graph.Worklist
import MinCut.Proofs.Table.Reference
import MinCut.Session

/-!
# Minimum cuts

Minimum cuts of graphs whose nodes have capacities at two terminals, found by growing a tree
from each of them.

A graph is built by calls, solved once and asked for its flow and for the side of each node
(`MinCut.Graph`). What it is built of is a network (`MinCut.Network.Basic`), and what solves it is
a search over the residual capacities and the two trees (`MinCut.Search`): a scan grows a
tree (`MinCut.Forest.Growth`), an augmentation sends flow where the trees have met
(`MinCut.Augmentation`), and an adoption pass mends them (`MinCut.Forest.Adoption`). Graphs can
also be read from tables (`MinCut.Table.Cut`).

The theory lies under `MinCut.Proofs`, and goes from the parts to the whole. `Capacity`, `Network`
and `Residual` are about amounts, `Forest` is about the trees and `Search` about the turns
of a search. `Graph` says what holds of all graphs that calls can build, and `Table` of all tables.
`Arena` has the same program over plain records, in which every access can fail, and shows
that none does.
-/
