import MinCut.Forest.Basic

/-!
# Growing the trees

The trees grow from their active nodes. Scanning a node follows the arcs that
leave it, by number, wherever flow could still run between the node and the
other end: a free node found there joins the tree as a child, and becomes
active; a node of the other tree ends the scan, for the arc to it is a *bridge*
that closes a path from terminal to terminal.

A child gets the time stamp of its parent, not the present time, since its
distance is as reliable as its parent's and no more.

`Forest.select` decides which node is scanned: the one that has just given a
path, as long as it is in a tree, for its remaining arcs have not been looked
at; otherwise the first of the queue that is in a tree.
-/

namespace MinCut

namespace Forest

variable {n m : Nat}

/-- Takes the first node in a tree off the queue, clearing the flags of all that are taken off.
Nodes that have left the trees since they were queued are dropped on the way, which is why the queue
gets shorter with every step. -/
def nextActive (f : Forest n m) : Option (Fin n) × Forest n m :=
  match _h : f.queue.popFront? with
  | none => (none, f)
  | some (v, queue) =>
    let f := f.dequeue v queue
    if (f.side? v).isSome then (some v, f) else f.nextActive
termination_by f.queue.length
decreasing_by
  rw [Deque.length_of_popFront? _h]
  exact Nat.lt_succ_self _

/-- The node to be scanned: the current one while it is in a tree, or else the
next of the queue. -/
def select (f : Forest n m) : Option (Fin n) → Option (Fin n) × Forest n m
  | some v =>
    let g := f.flag v false
    if (g.side? v).isSome then (some v, g) else g.nextActive
  | none => f.nextActive

/-- Follows arcs out of a node with a given label in the tree of a side, up to the first bridge.
Flow would have to run from the tree toward the other end, in the source tree over the arc itself
and in the sink tree over its sister. Bridges are given in the direction in which they carry flow
from the source tree to the sink tree. -/
def scan (T : Topology n m) (S : Support n m) (side : Side) (stamp distance : Nat) :
    List (Arc m) → Forest n m → Option (Arc m) × Forest n m
  | [], f => (none, f)
  | a :: arcs, f =>
    if S.live side a.sister then
      match f.side? (T.head a) with
      | none =>
        let child := T.head a
        let g := (f.attach child side (.arc a.sister) stamp (distance + 1)).activate child
        scan T S side stamp distance arcs g
      | some other =>
        if other = side then scan T S side stamp distance arcs f
        else (some (side.carrier a.sister), f)
    else scan T S side stamp distance arcs f

/-- **Scans a node.** Returns the bridge found, if any, and the grown forest. -/
def grow (T : Topology n m) (S : Support n m) (f : Forest n m) (v : Fin n) :
    Option (Arc m) × Forest n m :=
  match (f.label v).place with
  | .free => (none, f)
  | .tree side _ =>
    scan T S side (f.label v).stamp (f.label v).distance (T.out v) f

end Forest

end MinCut
