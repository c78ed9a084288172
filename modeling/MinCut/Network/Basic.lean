import MinCut.Fault
import MinCut.Network.Residual
import MinCut.Network.Topology

/-!
# Networks

A network under construction: nodes, each with capacity toward the source and
the sink, and edges with a capacity each way. Nodes are numbered from zero in
the order they are added, edges likewise.

Two things are settled as calls come in rather than at the end. What the two
terminals of a node share can be sent through it at once, so only the signed
difference is kept and the shared part is credited to the flow (`absorb`). And
every capacity accepted is added to a running total that must stay in the
finite range of the type (`Network.totalWith`); what the search moves around later
never exceeds that total.

A call that is refused says why and leaves no trace, since it returns no
network.
-/

namespace MinCut

variable {α : Type}

/-- Two nodes joined with a capacity each way. They may be the same node, and there may be several
edges between two nodes. -/
structure Edge (α : Type) where
  /-- The node the edge starts at. -/
  tail : Nat
  /-- The node it leads to. -/
  head : Nat
  /-- The capacity from tail to head. -/
  capacity : α
  /-- The capacity from head to tail. -/
  reverse : α

/-- A network as built so far. -/
structure Network (α : Type) where
  /-- The capacity left at the terminals of each node, signed toward the
  source. -/
  excesses : Array α
  /-- The edges, in the order they were added. -/
  edges : Array (Edge α)
  /-- What is sent from terminal to terminal through single nodes. -/
  flow : α
  /-- The sum of all capacities accepted. -/
  total : α
  /-- Edges join nodes of the network. -/
  ends_lt : ∀ e ∈ edges, e.tail < excesses.size ∧ e.head < excesses.size

namespace Network

/-- How many nodes there are. -/
abbrev nodeCount (net : Network α) : Nat := net.excesses.size

/-- How many edges there are. -/
abbrev edgeCount (net : Network α) : Nat := net.edges.size

/-- An edge of a network. -/
def edge (net : Network α) (k : Fin net.edgeCount) : Edge α := net.edges.toVector.get k

/-- The nodes an edge joins. -/
theorem edge_ends_lt (net : Network α) (k : Fin net.edgeCount) :
    (net.edge k).tail < net.nodeCount ∧ (net.edge k).head < net.nodeCount :=
  net.ends_lt _ (Array.getElem_mem k.isLt)

/-! ## The network as the search sees it -/

/-- The shape of a network, for which only the ends of its edges matter. It is fixed before the
search begins. -/
def topology (net : Network α) : Topology net.nodeCount net.edgeCount :=
  .ofEnds <| Vector.ofFn fun k =>
    (⟨(net.edge k).tail, (net.edge_ends_lt k).1⟩, ⟨(net.edge k).head, (net.edge_ends_lt k).2⟩)

/-- The residual capacities before the search. -/
def residual (net : Network α) : Residual α net.nodeCount net.edgeCount where
  pairs := net.edges.toVector.map fun e => (e.capacity, e.reverse)
  excesses := net.excesses.toVector
  flow := net.flow

/-- An edge's own direction leads from its tail to its head. -/
theorem tail_topology_forward (net : Network α) (k : Fin net.edgeCount) :
    (net.topology.tail ⟨k, .forward⟩).val = (net.edge k).tail :=
  congrArg (fun ends : Fin net.nodeCount × Fin net.nodeCount => ends.1.val) (get_ofFn _ k)

@[inherit_doc tail_topology_forward]
theorem head_topology_forward (net : Network α) (k : Fin net.edgeCount) :
    (net.topology.head ⟨k, .forward⟩).val = (net.edge k).head :=
  congrArg (fun ends : Fin net.nodeCount × Fin net.nodeCount => ends.2.val) (get_ofFn _ k)

/-- Before the search, the whole capacity of an edge is left from tail to
head. -/
theorem residual_forward (net : Network α) (k : Fin net.edgeCount) :
    net.residual.residual ⟨k, .forward⟩ = (net.edge k).capacity :=
  congrArg Prod.fst (get_map _ _ k)

/-- Before the search, the whole reverse capacity is left from head to tail. -/
theorem residual_backward (net : Network α) (k : Fin net.edgeCount) :
    net.residual.residual ⟨k, .backward⟩ = (net.edge k).reverse :=
  congrArg Prod.snd (get_map _ _ k)

end Network

/-! ## Building

A network is built by adding nodes, capacities toward the terminals and edges. Capacities are judged
in one place (`Network.totalWith`). Adding capacity at a node is defined with the record of its
operations (`Recorded`), and the function that is used is the value of that. -/

variable [Capacity α]

/-- Adds capacities at both terminals to what a node has left, and returns what it has left then and
what both terminals share. What the node has left stands on one side, and is first taken together
with the new capacity of that side. -/
def absorbing (excess sink source : α) : Recorded α (α × α) := do
  let (source, sink) ←
    if 0 < excess then do
      let source ← .run (.add source excess)
      pure (source, sink)
    else do
      let sink ← .run (.sub sink excess)
      pure (source, sink)
  let left ← .run (.sub source sink)
  return (left, if source < sink then source else sink)

@[inherit_doc absorbing]
def absorb (excess sink source : α) : α × α := (absorbing excess sink source).value

/-- What absorbing comes to, without its record. -/
@[simp] theorem value_absorbing (excess sink source : α) :
    (absorbing excess sink source).value = absorb excess sink source := rfl

/-- What absorbing comes to, with the sums written out. -/
theorem absorb_eq (excess sink source : α) : absorb excess sink source =
    let (source, sink) :=
      if 0 < excess then (source + excess, sink) else (source, sink - excess)
    (source - sink, if source < sink then source else sink) := by
  unfold absorb absorbing
  split <;> rfl

namespace Network

/-- The network without nodes, with room set aside for some. -/
def withRoom (nodes edges : Nat) : Network α where
  excesses := Array.emptyWithCapacity nodes
  edges := Array.emptyWithCapacity edges
  flow := 0
  total := 0
  ends_lt := by simp

/-- The network without nodes. -/
def empty : Network α := withRoom 0 0

/-- Room set aside is not part of what a network is. -/
@[simp] theorem withRoom_eq (nodes edges : Nat) :
    (withRoom nodes edges : Network α) = empty := rfl

/-- Adds nodes without capacity at either terminal. -/
def addNodes (net : Network α) (count : Nat) : Network α where
  excesses := net.excesses ++ Array.replicate count 0
  edges := net.edges
  flow := net.flow
  total := net.total
  ends_lt e he := by
    have := net.ends_lt e he
    rw [Array.size_append]
    omega

/-- **The total with two more capacities**, if both are non-negative and the
sums stay finite. -/
def totalWith (net : Network α) (first second : α) : Except (Fault α) α :=
  if ¬0 ≤ first then .error (.negative first)
  else if ¬0 ≤ second then .error (.negative second)
  else
    match (Capacity.checkedAdd net.total first).bind (Capacity.checkedAdd · second) with
    | some total => .ok total
    | none => .error (.totalOverflow first second net.total)

/-- **When two capacities are accepted**, and with what total. -/
theorem totalWith_eq_ok_iff {net : Network α} {first second total : α} :
    net.totalWith first second = .ok total
      ↔ 0 ≤ first ∧ 0 ≤ second
        ∧ (Capacity.checkedAdd net.total first).bind (Capacity.checkedAdd · second)
          = some total := by
  unfold totalWith
  by_cases hf : 0 ≤ first
  · by_cases hs : 0 ≤ second
    · cases h : (Capacity.checkedAdd net.total first).bind (Capacity.checkedAdd · second) <;>
        simp [hf, hs]
    · simp [hf, hs]
  · simp [hf]

/-- Adds capacity toward the terminals at a node. The node is looked up first and the capacities are
judged afterwards, so that a call with both faults is refused for its node. -/
def addingTerminal (net : Network α) (node : Nat) (sink source : α) :
    Except (Fault α) (Recorded α (Network α)) :=
  if h : node < net.nodeCount then do
    let total ← net.totalWith sink source
    return do
      let (excess, shared) ← absorbing net.excesses[node] sink source
      let flow ← .run (.add net.flow shared)
      return {
        excesses := net.excesses.set node excess
        edges := net.edges
        flow := flow
        total := total
        ends_lt := fun e he => by
          rw [Array.size_set]
          exact net.ends_lt e he }
  else .error (.nodeOutOfRange node net.nodeCount)

@[inherit_doc addingTerminal]
def addTerminal (net : Network α) (node : Nat) (sink source : α) :
    Except (Fault α) (Network α) := Recorded.value <$> net.addingTerminal node sink source

/-- Joins two nodes by an edge. As for terminals, the nodes come before the capacities, and the tail
before the head. -/
def addEdge (net : Network α) (edge : Edge α) : Except (Fault α) (Network α) :=
  if ht : edge.tail < net.nodeCount then
    if hh : edge.head < net.nodeCount then do
      let total ← net.totalWith edge.capacity edge.reverse
      return {
        excesses := net.excesses
        edges := net.edges.push edge
        flow := net.flow
        total := total
        ends_lt := fun e he => by
          rcases Array.mem_push.1 he with he | rfl
          · exact net.ends_lt e he
          · exact ⟨ht, hh⟩ }
    else .error (.nodeOutOfRange edge.head net.nodeCount)
  else .error (.nodeOutOfRange edge.tail net.nodeCount)

/-- Capacity that does not fit is refused with the reason. -/
theorem addTerminal_of_error {net : Network α} {node : Nat} {sink source : α} {fault : Fault α}
    (hn : node < net.nodeCount) (ht : net.totalWith sink source = .error fault) :
    net.addTerminal node sink source = .error fault := by
  rw [addTerminal, addingTerminal, dif_pos hn, ht]
  rfl

/-- Nothing is added at a node that does not exist. -/
theorem addTerminal_of_not_lt {net : Network α} {node : Nat} (hn : ¬node < net.nodeCount)
    (sink source : α) :
    net.addTerminal node sink source = .error (.nodeOutOfRange node net.nodeCount) := by
  rw [addTerminal, addingTerminal, dif_neg hn]
  rfl

/-- What an accepted capacity at a node changes. -/
theorem addTerminal_of_totalWith {net : Network α} {node : Nat} {sink source total : α}
    (hn : node < net.nodeCount) (ht : net.totalWith sink source = .ok total) :
    ∃ net', net.addTerminal node sink source = .ok net'
      ∧ net'.excesses = net.excesses.set node (absorb net.excesses[node] sink source).1
      ∧ net'.edges = net.edges
      ∧ net'.flow = net.flow + (absorb net.excesses[node] sink source).2
      ∧ net'.total = total := by
  rw [addTerminal, addingTerminal, dif_pos hn, ht]
  exact ⟨_, rfl, rfl, rfl, rfl, rfl⟩

/-- What an accepted edge changes. -/
theorem addEdge_of_totalWith {net : Network α} {edge : Edge α} {total : α}
    (ht : edge.tail < net.nodeCount) (hh : edge.head < net.nodeCount)
    (htotal : net.totalWith edge.capacity edge.reverse = .ok total) :
    ∃ net', net.addEdge edge = .ok net' ∧ net'.excesses = net.excesses
      ∧ net'.edges = net.edges.push edge ∧ net'.flow = net.flow ∧ net'.total = total := by
  rw [addEdge, dif_pos ht, dif_pos hh, htotal]
  exact ⟨_, rfl, rfl, rfl, rfl, rfl⟩

end Network

end MinCut
