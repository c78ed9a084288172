import MinCut.Call
import MinCut.Proofs.Loop

/-!
# The search over plain records

Nodes and arcs of a network are looked up by indices that cannot be out of range, and the
walks of the search end by a bound. Here is the same search over nothing but lists of
records that refer to each other by number (`Arena`), as a machine would execute it: every
lookup is checked, the loops stop only when their bodies say so, the walk up a leg expects
each link to be there, and no distance may be counted down below zero. Whatever of this
fails is a *panic*, for which `none` stands, and so does a loop without an end.

None of it ever happens, which is proved in the modules that follow.

The functions are those of the search in the same order: growing, augmenting, adopting, and a turn
that does the three. A loop is `Loop.run` of its body, which gives the next state or the result. A
*position* is a place in the list of arcs of a node, and the list is read again for each position,
so that nothing is said here about lists that change while they are read. No invariant is mentioned
in any definition.
-/

namespace MinCut

/-- All a graph holds, as records that refer to each other by number, with what has happened
in the search, the latest first. -/
structure Arena (α : Type) extends Snapshot α where
  /-- What has happened. -/
  events : List (Event α)

namespace Arena

variable {α : Type}

/-! ## Records -/

/-- Looks a node up. -/
def node (s : Arena α) (i : Nat) : Option (NodeState α) := s.nodes[i]?

/-- Looks an arc up. -/
def arc (s : Arena α) (a : Nat) : Option (ArcState α) := s.arcs[a]?

/-- Changes a node. -/
def updateNode (s : Arena α) (i : Nat) (change : NodeState α → NodeState α) :
    Option (Arena α) := do
  let node ← s.node i
  return { s with nodes := s.nodes.set i (change node) }

/-- Changes an arc. -/
def updateArc (s : Arena α) (a : Nat) (change : ArcState α → ArcState α) : Option (Arena α) := do
  let arc ← s.arc a
  return { s with arcs := s.arcs.set a (change arc) }

/-- The arc that leaves a node in some position. -/
def leaving (s : Arena α) (i k : Nat) : Option Nat := do
  (← s.node i).arcs[k]?

/-- The sister of an arc. -/
def sister (s : Arena α) (a : Nat) : Option Nat := do
  return (← s.arc a).sister

/-- The node an arc leads to. -/
def head (s : Arena α) (a : Nat) : Option Nat := do
  return (← s.arc a).head

/-- The node an arc starts at. -/
def tail (s : Arena α) (a : Nat) : Option Nat := do
  s.head (← s.sister a)

/-- The arc along which flow runs over a link from child to parent in a tree. -/
def carrier (s : Arena α) (tree : Option Side) (link : Nat) : Option Nat :=
  match tree with
  | some .source => s.sister link
  | _ => some link

/-- What is left on an arc. -/
def residual (s : Arena α) (a : Nat) : Option α := do
  return (← s.arc a).residual

/-- What is left for flow over a link from child to parent in a tree. -/
def linkResidual (s : Arena α) (tree : Option Side) (link : Nat) : Option α := do
  s.residual (← s.carrier tree link)

/-! ## Trees and waiting lines -/

/-- Hangs a node into a tree. -/
def attach (s : Arena α) (i : Nat) (tree : Option Side) (parent : Parent) (stamp distance : Nat) :
    Option (Arena α) :=
  s.updateNode i fun node => { node with side := tree, parent := some parent, stamp, distance }

/-- Notes the distance of a node as right at the present time. -/
def mark (s : Arena α) (i distance : Nat) : Option (Arena α) :=
  s.updateNode i fun node => { node with stamp := s.time, distance }

/-- Sets or clears the flag of a node. -/
def flag (s : Arena α) (i : Nat) (active : Bool) : Option (Arena α) :=
  s.updateNode i fun node => { node with active }

/-- Queues a node, unless it is active already. -/
def activate (s : Arena α) (i : Nat) : Option (Arena α) := do
  if (← s.node i).active then return s
  else
    let s ← s.flag i true
    return { s with active := s.active ++ [i] }

/-- Cuts a node off. -/
def sever (s : Arena α) (i : Nat) : Option (Arena α) :=
  s.updateNode i fun node => { node with parent := some .orphan }

/-- Cuts a node off, to be adopted before all other orphans. -/
def orphanFront (s : Arena α) (i : Nat) : Option (Arena α) := do
  let s ← s.sever i
  return { s with orphans := i :: s.orphans }

/-- Cuts a node off, to be adopted after all other orphans. -/
def orphanBack (s : Arena α) (i : Nat) : Option (Arena α) := do
  let s ← s.sever i
  return { s with orphans := s.orphans ++ [i] }

/-! ## Growing -/

section Growing

variable [Capacity α]

/-- Makes a node a root if it has capacity left at a terminal. -/
def plant (s : Arena α) (i : Nat) : Option (Arena α) := do
  let s ← s.flag i false
  let node ← s.node i
  if 0 < node.excess then
    let s ← s.attach i (some .source) .terminal 0 1
    s.activate i
  else if node.excess < 0 then
    let s ← s.attach i (some .sink) .terminal 0 1
    s.activate i
  else
    s.updateNode i fun node => { node with side := none, parent := none, stamp := 0 }

/-- Makes all nodes roots that have capacity left at a terminal. -/
def plantAll (s : Arena α) : Option (Arena α) :=
  (List.range s.nodes.length).foldlM plant { s with active := [], orphans := [], time := 0 }

/-- Takes a node off the queue. -/
def poll (s : Arena α) : Option (Arena α ⊕ (Option Nat × Arena α)) :=
  match s.active with
  | [] => some (.inr (none, s))
  | i :: active => do
    let s ← flag { s with active } i false
    return if (← s.node i).side.isSome then .inr (some i, s) else .inl s

/-- The node to be scanned. -/
def select (s : Arena α) : Option Nat → Option (Option Nat × Arena α)
  | some i => do
    let s ← s.flag i false
    if (← s.node i).side.isSome then return (some i, s) else Loop.run poll s
  | none => Loop.run poll s

/-- What is left for a tree to grow over an arc with a given sister. -/
def outward (s : Arena α) (side : Side) (a sister : Nat) : Option α :=
  match side with
  | .source => s.residual a
  | .sink => s.residual sister

/-- Follows the arcs that leave a node in some positions, up to the first bridge. -/
def scan (i : Nat) (side : Side) (stamp distance : Nat) :
    List Nat → Arena α → Option (Option Nat × Arena α)
  | [], s => some (none, s)
  | k :: ks, s => do
    let a ← s.leaving i k
    let sister ← s.sister a
    let amount ← s.outward side a sister
    if amount ≤ 0 then scan i side stamp distance ks s
    else
      let j ← s.head a
      match (← s.node j).side with
      | none =>
        let s ← s.attach j (some side) (.arc sister) stamp (distance + 1)
        let s ← s.activate j
        scan i side stamp distance ks s
      | some other =>
        if other = side then scan i side stamp distance ks s
        else
          return (some (match side with
            | .source => a
            | .sink => sister), s)

/-- Scans a node. -/
def grow (s : Arena α) (i : Nat) : Option (Option Nat × Arena α) := do
  let node ← s.node i
  match node.side with
  | none => return (none, s)
  | some side => scan i side node.stamp node.distance (List.range node.arcs.length) s

/-! ## Augmenting -/

/-- Moves an amount from an arc to its sister. -/
def push (s : Arena α) (a : Nat) (x : α) : Option (Arena α) := do
  let sister ← s.sister a
  let s ← s.updateArc a fun arc => { arc with residual := arc.residual - x }
  s.updateArc sister fun arc => { arc with residual := arc.residual + x }

/-- The arc to the parent of a node, or nothing at a root. A node that is neither panics. -/
def parentArc (s : Arena α) (i : Nat) : Option (Option Nat) := do
  match (← s.node i).parent with
  | some (.arc a) => return some a
  | some .terminal => return none
  | some .orphan | none => failure

/-- Takes the link of a node into the bottleneck, or its terminal if it is a root. -/
def measure (s : Arena α) (side : Side) : α × Nat → Option ((α × Nat) ⊕ α)
  | (x, i) => do
    match ← s.parentArc i with
    | some a =>
      let amount ← s.linkResidual (some side) a
      return .inl (Capacity.smaller x amount, ← s.head a)
    | none =>
      let node ← s.node i
      return .inr (Capacity.smaller x (match side with
        | .source => node.excess
        | .sink => -node.excess))

/-- Uses an amount of what a node has at its terminal. -/
def draw (s : Arena α) (side : Side) (i : Nat) (x : α) : Option (Arena α) :=
  s.updateNode i fun node => { node with excess := match side with
    | .source => node.excess - x
    | .sink => node.excess + x }

/-- Whether a root has nothing left at its terminal. -/
def isDrained (side : Side) (excess : α) : Bool :=
  match side with
  | .source => excess ≤ 0
  | .sink => 0 ≤ excess

/-- Cuts a node off if nothing is left of its link. -/
def cutOff (s : Arena α) (i : Nat) (drained : Bool) : Option (Arena α) :=
  if drained then s.orphanFront i else return s

/-- Sends an amount over the link of a node, or from its terminal if it is a root, and cuts
the node off if nothing is left there. -/
def pour (side : Side) (x : α) : Arena α × Nat → Option ((Arena α × Nat) ⊕ Arena α)
  | (s, i) => do
    match ← s.parentArc i with
    | some a =>
      let s ← s.push (← s.carrier (some side) a) x
      let s ← s.cutOff i ((← s.linkResidual (some side) a) ≤ 0)
      return .inl (s, ← s.head a)
    | none =>
      let s ← s.draw side i x
      return .inr (← s.cutOff i (isDrained side (← s.node i).excess))

/-- Augments the path that a bridge closes. -/
def augment (s : Arena α) (bridge : Nat) : Option (Arena α) := do
  let tail ← s.tail bridge
  let head ← s.head bridge
  let amount ← s.residual bridge
  let amount ← Loop.run (s.measure .source) (amount, tail)
  let amount ← Loop.run (s.measure .sink) (amount, head)
  let s ← s.push bridge amount
  let s ← Loop.run (pour .source amount) (s, tail)
  let s ← Loop.run (pour .sink amount) (s, head)
  return { s with
    flow := s.flow + amount
    stats := { s.stats with augmentations := s.stats.augmentations + 1 }
    events := .augmented amount bridge tail head :: s.events }

/-! ## Adopting -/

/-- Counts the link of a node on the way up from another. -/
def probe (s : Arena α) : Nat × Nat → Option ((Nat × Nat) ⊕ (Option Nat × Arena α))
  | (i, count) => do
    let node ← s.node i
    if node.stamp = s.time then return .inr (some (count + node.distance), s)
    else
      match node.parent with
      | some .terminal => return .inr (some (count + 1), ← s.mark i 1)
      | some (.arc a) => return .inl (← s.head a, count + 1)
      | some .orphan | none => return .inr (none, s)

/-- Notes the distance of a node on the way up, and counts down, which panics at zero. -/
def note : Arena α × Nat × Nat → Option ((Arena α × Nat × Nat) ⊕ Arena α)
  | (s, i, distance) => do
    if (← s.node i).stamp = s.time then return .inr s
    else
      let s ← s.mark i distance
      guard (0 < distance)
      match (← s.node i).parent with
      | some (.arc a) => return .inl (s, ← s.head a, distance - 1)
      | _ => return .inr s

/-- The distance of a node, which is noted on its chain. -/
def trace (s : Arena α) (i : Nat) : Option (Option Nat × Arena α) := do
  match ← Loop.run s.probe (i, 0) with
  | (none, s) => return (none, s)
  | (some distance, s) =>
    let s ← Loop.run note (s, i, distance)
    return (some distance, s)

/-- The nearer one of two candidates, the old one where neither is. -/
def nearer (best : Option (Nat × Nat)) (a d : Nat) : Option (Nat × Nat) :=
  match best with
  | some (a₀, d₀) => if d < d₀ then some (a, d) else some (a₀, d₀)
  | none => some (a, d)

/-- Weighs the other end of an arc as a parent. -/
def weigh (i : Nat) (tree : Option Side) : Arena α × Option (Nat × Nat) → Nat →
    Option (Arena α × Option (Nat × Nat))
  | (s, best), k => do
    let a ← s.leaving i k
    if (← s.linkResidual tree a) ≤ 0 then return (s, best)
    else
      let j ← s.head a
      if (← s.node j).side ≠ tree then return (s, best)
      else
        match ← s.trace j with
        | (none, s) => return (s, best)
        | (some d, s) => return (s, nearer best a d)

/-- Queues a node if flow could run between it and another. -/
def rouse (s : Arena α) (i : Nat) (live : Bool) : Option (Arena α) :=
  if live then s.activate i else return s

/-- What releasing a node means for the other end of one of its arcs. -/
def estrange (i : Nat) (tree : Option Side) (s : Arena α) (k : Nat) : Option (Arena α) := do
  let a ← s.leaving i k
  let j ← s.head a
  if (← s.node j).side ≠ tree then return s
  else
    let s ← s.rouse j (0 < (← s.linkResidual tree a))
    match (← s.node j).parent with
    | some (.arc up) => if (← s.head up) = i then s.orphanBack j else return s
    | _ => return s

/-- Releases an orphan. -/
def expel (s : Arena α) (i : Nat) (tree : Option Side) : Option (Arena α) := do
  let s ← (List.range (← s.node i).arcs.length).foldlM (estrange i tree) s
  let s ← s.updateNode i fun node => { node with side := none, parent := none }
  return { s with
    stats := { s.stats with expelled := s.stats.expelled + 1 }
    events := .expelled i :: s.events }

/-- Counts an adoption. -/
def countAdoption (s : Arena α) : Arena α :=
  { s with stats := { s.stats with adopted := s.stats.adopted + 1 } }

/-- Whether a node has capacity left at the terminal of its tree. -/
def isRooted (node : NodeState α) : Bool :=
  match node.side with
  | some .source => 0 < node.excess
  | some .sink => node.excess < 0
  | none => false

/-- Settles an orphan. -/
def settle (s : Arena α) (i : Nat) : Option (Arena α) := do
  let node ← s.node i
  if isRooted node then
    let s ← s.attach i node.side .terminal s.time 1
    return s.countAdoption
  else
    let (s, best) ← (List.range node.arcs.length).foldlM (weigh i node.side) (s, none)
    match best with
    | some (a, d) =>
      let s ← s.attach i node.side (.arc a) s.time (d + 1)
      return s.countAdoption
    | none => s.expel i node.side

/-- Takes an orphan off the line and settles it. -/
def round (s : Arena α) : Option (Arena α ⊕ Arena α) :=
  match s.orphans with
  | [] => some (.inr s)
  | i :: orphans => do
    let s : Arena α := { s with orphans }
    if (← s.node i).parent = some .orphan then return .inl (← s.settle i)
    else return .inl s

/-! ## Searching -/

/-- Scans a node, and augments the path and mends the trees if it finds a bridge. -/
def turn : Arena α × Option Nat → Option ((Arena α × Option Nat) ⊕ Arena α)
  | (s, current) => do
    match ← s.select current with
    | (none, s) => return .inr s
    | (some i, s) =>
      let (bridge?, s) ← s.grow i
      let s : Arena α := { s with
        time := s.time + 1
        stats := { s.stats with growthSteps := s.stats.growthSteps + 1 } }
      match bridge? with
      | none => return .inl (s, none)
      | some bridge =>
        let s ← s.flag i true
        let s ← s.augment bridge
        let s ← Loop.run round s
        return .inl (s, some i)

end Growing

end Arena

end MinCut
