import MinCut.Proofs.Arena.Calls
import MinCut.Proofs.Arena.Layout

/-!
# Building an arena

The records of a graph under construction can be told from its network, node by node and
edge by edge (`Graph.arena_building`): no node is in a tree, and the arcs that leave a node
are those of the edges at it. A call to a graph under construction changes some records,
all of which are there since it checks the nodes that it is given first. So the arena after
the call is that of the network after it.

The three calls that build a graph follow the same plan. Their checks fail in an arena where they
fail on the network, with the same fault (`Graph.perform_ensureNode_of_not_lt`,
`Graph.perform_totalWith`). If they succeed, the records are changed, and it remains to be seen that
the records of the new network are the old ones with this change: `Network.map_nodeState_addNodes`
for nodes, `Network.nodeState_set` for capacity at terminals, and `Network.nodeState_push` together
with `Network.arcStates_push` for edges. Here `Graph.effect` says what a result of a graph comes to
in an arena, so that the three theorems have one form.
-/

namespace MinCut

variable {α : Type} [Capacity α]

/-! ## The records of a network

The layout of a network before its search can be given without topology or residual network, from
the lists of edges and amounts alone. In this form it is plain which records a call changes. -/

namespace Network

/-- The arcs that leave a node, by number. -/
def leaving (net : Network α) (v : Nat) : List Nat :=
  net.edges.toList.zipIdx.flatMap fun (e, k) =>
    (if e.tail = v then [2 * k] else []) ++ if e.head = v then [2 * k + 1] else []

/-- The state of a node before the search. -/
def nodeState (net : Network α) (v : Nat) : NodeState α :=
  ⟨net.leaving v, none, none, net.excesses.getD v 0, 0, 0, false⟩

/-- The states of all arcs before the search. -/
def arcStates (net : Network α) : List (ArcState α) :=
  net.edges.toList.zipIdx.flatMap fun (e, k) =>
    [⟨e.head, 2 * k + 1, e.capacity⟩, ⟨e.tail, 2 * k, e.reverse⟩]

variable (net : Network α)

omit [Capacity α] in
/-- The edges with their numbers. -/
theorem zipIdx_edges : net.edges.toList.zipIdx
    = (List.finRange net.edgeCount).map fun k => (net.edge k, k.val) := by
  have hedges : net.edges.toList = (List.finRange net.edgeCount).map net.edge :=
    List.ext_getElem (by simp) fun k _ _ => by
      rw [List.getElem_map, List.getElem_finRange]
      rfl
  rw [hedges, zipIdx_map_finRange]

omit [Capacity α] in
/-- Which arcs leave a node depends on the ends of the edges. -/
theorem map_number_out (v : Fin net.nodeCount) :
    (net.topology.out v).map Arc.number = net.leaving v := by
  have htail (k : Fin net.edgeCount) :
      net.topology.tail ⟨k, .forward⟩ = v ↔ (net.edge k).tail = v.val := by
    rw [← net.tail_topology_forward, Fin.ext_iff]
  have hhead (k : Fin net.edgeCount) :
      net.topology.tail ⟨k, .backward⟩ = v ↔ (net.edge k).head = v.val := by
    rw [← net.head_topology_forward, Fin.ext_iff]
    rfl
  unfold leaving
  rw [Topology.out_eq, Arc.all, List.filter_flatMap, List.map_flatMap, zipIdx_edges,
    List.flatMap_map]
  refine List.flatMap_congr fun k _ => ?_
  simp only [List.filter_cons, List.filter_nil, decide_eq_true_eq, htail, hhead]
  split <;> split <;> rfl

/-- The layout of a network before the search shows its nodes in this state. -/
theorem map_of_finRange : (List.finRange net.nodeCount).map
      (NodeState.of net.topology net.residual (.bare _ _))
    = (List.range net.nodeCount).map net.nodeState := by
  rw [← List.map_coe_finRange_eq_range, List.map_map]
  refine List.map_congr_left fun v _ => ?_
  have hlabel : (Forest.bare net.nodeCount net.edgeCount).label v = ⟨.free, 0, 0, false⟩ :=
    Vector.getElem_replicate v.isLt
  have hexcess : net.excesses.getD v 0 = net.residual.excess v := by
    rw [Array.getD_eq_getD_getElem?, Array.getElem?_eq_getElem v.isLt]
    rfl
  unfold NodeState.of Forest.side? Forest.link?
  rw [hlabel, map_number_out, ← hexcess]
  rfl

omit [Capacity α] in
/-- It shows its arcs in this state. -/
theorem map_of_all : (Arc.all net.edgeCount).map (ArcState.of net.topology net.residual)
    = net.arcStates := by
  unfold arcStates
  rw [Arc.all, List.map_flatMap, zipIdx_edges, List.flatMap_map]
  refine List.flatMap_congr fun k _ => ?_
  have htail : (net.topology.head ⟨k, .backward⟩).val = (net.edge k).tail :=
    net.tail_topology_forward k
  rw [List.map_cons, List.map_singleton, ArcState.of, ArcState.of, net.residual_forward,
    net.residual_backward, net.head_topology_forward, htail]
  rfl

/-- The records after nodes have been added. -/
theorem map_nodeState_addNodes (count : Nat) :
    (List.range (net.addNodes count).nodeCount).map (net.addNodes count).nodeState
      = (List.range net.nodeCount).map net.nodeState
        ++ List.replicate count Arena.newNode := by
  -- a node that is there has the same arcs, and the excess that it had
  have hold (v : Nat) : (net.addNodes count).nodeState v = net.nodeState v := by
    have hexcess : (net.addNodes count).excesses.getD v 0 = net.excesses.getD v 0 := by
      show (net.excesses ++ Array.replicate count 0).getD v 0 = _
      rw [Array.getD_eq_getD_getElem?, Array.getD_eq_getD_getElem?, Array.getElem?_append]
      split
      · rfl
      · rename_i hv
        rw [Array.getElem?_replicate, Array.getElem?_eq_none (Nat.le_of_not_lt hv)]
        split <;> rfl
    unfold nodeState
    rw [hexcess]
    rfl
  -- no edge ends at a node that is not there, so a new node has no arcs
  have hnew (k : Nat) :
      net.nodeState (net.nodeCount + k) = Arena.newNode := by
    have hleaving : net.leaving (net.nodeCount + k) = [] := by
      unfold leaving
      rw [zipIdx_edges, List.flatMap_map]
      refine List.flatMap_eq_nil_iff.2 fun j _ => ?_
      have := net.edge_ends_lt j
      dsimp only
      rw [if_neg (by omega), if_neg (by omega)]
      rfl
    have hexcess : net.excesses.getD (net.nodeCount + k) 0 = 0 := by
      rw [Array.getD_eq_getD_getElem?, Array.getElem?_eq_none (Nat.le_add_right _ k)]
      rfl
    rw [nodeState, hleaving, hexcess]
    rfl
  have hcount : (net.addNodes count).nodeCount = net.nodeCount + count := by
    simp [nodeCount, addNodes]
  rw [hcount, List.range_add, List.map_append, List.map_map,
    List.map_congr_left fun v _ => hold v]
  refine congrArg _ (List.eq_replicate_iff.2 ⟨by simp, fun node hnode => ?_⟩)
  obtain ⟨k, -, rfl⟩ := List.mem_map.1 hnode
  exact (hold _).trans (hnew k)

/-- A record after capacity at a terminal has been added. -/
theorem nodeState_set {net' : Network α} {node : Nat} (hn : node < net.nodeCount) {excess : α}
    (hexcesses : net'.excesses = net.excesses.set node excess) (hedges : net'.edges = net.edges) :
    net'.nodeState
      = Function.update net.nodeState node { net.nodeState node with excess } := by
  have hleaving (v : Nat) : net'.leaving v = net.leaving v := by rw [leaving, hedges]; rfl
  funext v
  unfold nodeState
  rw [hleaving, hexcesses, Array.getD_eq_getD_getElem?, Array.getElem?_set]
  by_cases hv : v = node
  · rw [hv, Function.update_self, if_pos rfl]
    rfl
  · rw [Function.update_of_ne hv, if_neg (Ne.symm hv), Array.getD_eq_getD_getElem?]

omit [Capacity α] in
/-- The arcs that leave a node after an edge has been added. -/
theorem leaving_push {net' : Network α} {edge : Edge α} (hedges : net'.edges = net.edges.push edge)
    (v : Nat) : net'.leaving v = net.leaving v
      ++ ((if edge.tail = v then [2 * net.edgeCount] else [])
        ++ if edge.head = v then [2 * net.edgeCount + 1] else []) := by
  rw [leaving, hedges, Array.toList_push, List.zipIdx_append, List.flatMap_append]
  simp [leaving]

/-- The records after an edge has been added, one end after the other. -/
theorem nodeState_push {net' : Network α} {edge : Edge α} {φ : Nat → NodeState α}
    (hexcesses : net'.excesses = net.excesses) (hedges : net'.edges = net.edges.push edge)
    (hφ : φ = Function.update net.nodeState edge.tail { net.nodeState edge.tail with
      arcs := (net.nodeState edge.tail).arcs ++ [2 * net.edgeCount] }) :
    net'.nodeState = Function.update φ edge.head { φ edge.head with
      arcs := (φ edge.head).arcs ++ [2 * net.edgeCount + 1] } := by
  -- the records after the first arc of the edge has been listed
  have hfirst (v : Nat) : φ v = { net.nodeState v with
      arcs := net.leaving v ++ if edge.tail = v then [2 * net.edgeCount] else [] } := by
    rw [hφ]
    by_cases hv : v = edge.tail
    · rw [hv, Function.update_self, if_pos rfl]
      rfl
    · rw [Function.update_of_ne hv, if_neg (Ne.symm hv), List.append_nil]
      rfl
  funext v
  rw [nodeState, net.leaving_push hedges, hexcesses, ← List.append_assoc]
  -- at the head the second arc is listed, which comes after the first even if the edge is a loop
  by_cases hv : v = edge.head
  · rw [hv, Function.update_self, hfirst, if_pos (rfl : edge.head = edge.head)]
    rfl
  · rw [Function.update_of_ne hv, hfirst, if_neg (Ne.symm hv), List.append_nil]
    rfl

omit [Capacity α] in
/-- The records of the arcs after an edge has been added. -/
theorem arcStates_push {net' : Network α} {edge : Edge α}
    (hedges : net'.edges = net.edges.push edge) :
    net'.arcStates = net.arcStates ++ [⟨edge.head, 2 * net.edgeCount + 1, edge.capacity⟩,
      ⟨edge.tail, 2 * net.edgeCount, edge.reverse⟩] := by
  rw [arcStates, hedges, Array.toList_push, List.zipIdx_append, List.flatMap_append]
  simp [arcStates]

end Network

/-! ## Graphs under construction

Each of the three calls is carried out on the arena of a graph and compared with what the graph
makes of it. A graph that has been solved refuses all three at once, and this holds by definition,
so that only graphs under construction have to be looked at. -/

/-- **The arena of a graph**, with what has happened in the search. -/
def Graph.arena (g : Graph α) (events : List (Event α)) : Arena α := { g.snapshot with events }

namespace Graph

variable {net : Network α} {events : List (Event α)}

/-- The arena of a graph under construction. -/
theorem arena_building (net : Network α) (events : List (Event α)) :
    (building net).arena events = {
      nodes := (List.range net.nodeCount).map net.nodeState
      arcs := net.arcStates
      flow := net.flow
      total := net.total
      isSolved := false
      active := []
      orphans := []
      time := 0
      stats := .zero
      events := events } := by
  rw [← net.map_of_finRange, ← net.map_of_all]
  rfl

/-- The record of a node. -/
theorem node_arena (net : Network α) (events : List (Event α)) {node : Nat}
    (hn : node < net.nodeCount) :
    ((building net).arena events).node node = some (net.nodeState node) := by
  rw [arena_building]
  show ((List.range net.nodeCount).map net.nodeState)[node]? = _
  rw [List.getElem?_map, List.getElem?_range hn]
  rfl

/-- There is a record for each node. -/
theorem length_nodes_arena (g : Graph α) (events : List (Event α)) :
    (g.arena events).nodes.length = g.nodeCount := by
  cases g with
  | building net => exact (List.length_map _).trans List.length_finRange
  | solved net final => exact (List.length_map _).trans List.length_finRange

/-- There is a record for each arc. -/
theorem length_arcs_arena (g : Graph α) (events : List (Event α)) :
    (g.arena events).arcs.length = g.arcCount := by
  cases g with
  | building net => exact (List.length_map _).trans (Arc.length_all _)
  | solved net final => exact (List.length_map _).trans (Arc.length_all _)

/-- **What a result of a graph is on records**: the arena of the graph afterwards, or of the graph
as it was where the result is a fault. -/
def effect {β : Type} (g : Graph α) (events : List (Event α)) :
    Except (Fault α) (β × Graph α) → Except (Fault α) β × Arena α
  | .ok (b, g') => (.ok b, g'.arena events)
  | .error fault => (.error fault, g.arena events)

/-- What is made of a result of the graph is made of its effect. -/
theorem perform_bind_effect {β γ : Type} {g : Graph α} {x : Arena.Action α β}
    {result : Except (Fault α) (β × Graph α)}
    (h : (g.arena events).perform x = some (g.effect events result)) (f : β → γ) :
    (g.arena events).perform (x >>= fun b => pure (f b))
      = some (g.effect events ((fun (b, g') => (f b, g')) <$> result)) := by
  cases result with
  | ok answer => exact Arena.perform_bind_of_ok h
  | error fault => exact Arena.perform_bind_of_error h

/-- **Adding nodes.** -/
theorem addNodes_arena (g : Graph α) (events : List (Event α)) (count : Nat) :
    (g.arena events).perform (Arena.addNodes count)
      = some (g.effect events (g.addNodes count)) := by
  cases g with
  | solved net final => rfl
  | building net =>
    have hcount : ((building net).arena events).nodes.length = net.nodeCount :=
      length_nodes_arena _ events
    show some (Except.ok ((building net).arena events).nodes.length, _)
      = some (Except.ok net.nodeCount, (building (net.addNodes count)).arena events)
    rw [hcount, arena_building, arena_building, net.map_nodeState_addNodes count]
    rfl

/-- **Capacities are checked against the network**, and what comes after the checks finds the
new total in its place. -/
theorem perform_totalWith {β : Type} (net : Network α) (events : List (Event α))
    (first second : α) (writes : Arena.Action α β) :
    ((building net).arena events).perform (do
      Arena.ensureCapacity first
      Arena.ensureCapacity second
      Arena.reserve first second
      writes)
    = match net.totalWith first second with
      | .ok total => Arena.perform { (building net).arena events with total } writes
      | .error fault => some (.error fault, (building net).arena events) := by
  let s := (building net).arena events
  have hcheck := s.perform_ensureCapacity
  unfold Network.totalWith
  -- the checks are made in the order in which the network makes them
  by_cases hfirst : 0 ≤ first
  · rw [if_neg (not_not_intro hfirst), Arena.perform_bind_of_ok (t := s) (b := ())
      ((hcheck first).trans (by rw [if_pos hfirst]))]
    by_cases hsecond : 0 ≤ second
    · rw [if_neg (not_not_intro hsecond), Arena.perform_bind_of_ok (t := s) (b := ())
        ((hcheck second).trans (by rw [if_pos hsecond]))]
      cases hsum : (Capacity.checkedAdd net.total first).bind (Capacity.checkedAdd · second) with
      | some total => exact Arena.perform_bind_of_ok (Arena.perform_reserve_of_some hsum)
      | none => exact Arena.perform_bind_of_error (Arena.perform_reserve_of_none hsum)
    · rw [if_pos hsecond]
      exact Arena.perform_bind_of_error ((hcheck second).trans (by rw [if_neg hsecond]))
  · rw [if_pos hfirst]
    exact Arena.perform_bind_of_error ((hcheck first).trans (by rw [if_neg hfirst]))

/-- A node that is there passes its check. -/
theorem perform_ensureNode_of_lt {g : Graph α} {node : Nat} (hn : node < g.nodeCount)
    (events : List (Event α)) :
    (g.arena events).perform (Arena.ensureNode node) = some (.ok (), g.arena events) := by
  rw [Arena.perform_ensureNode, length_nodes_arena, if_pos hn]

/-- A node that is not there does not. -/
theorem perform_ensureNode_of_not_lt {g : Graph α} {node : Nat} (hn : ¬node < g.nodeCount)
    (events : List (Event α)) : (g.arena events).perform (Arena.ensureNode node)
      = some (.error (.nodeOutOfRange node g.nodeCount), g.arena events) := by
  rw [Arena.perform_ensureNode, length_nodes_arena, if_neg hn]

/-- What a node is given is written into its record, and what its terminals share is flow. -/
theorem perform_credit {node : Nat} {sink source total : α} {net' : Network α}
    (hn : node < net.nodeCount)
    (hexcesses : net'.excesses = net.excesses.set node (absorb net.excesses[node] sink source).1)
    (hedges : net'.edges = net.edges)
    (hflow : net'.flow = net.flow + (absorb net.excesses[node] sink source).2)
    (htotal : net'.total = total) :
    Arena.perform { (building net).arena events with total } (Arena.credit node sink source)
      = some (.ok (), (building net').arena events) := by
  have hcount : net'.nodeCount = net.nodeCount := by
    rw [Network.nodeCount, hexcesses, Array.size_set]
  -- the node has the excess that the network says it has
  have hexcess : (net.nodeState node).excess = net.excesses[node] := by
    show net.excesses.getD node 0 = _
    rw [Array.getD_eq_getD_getElem?, Array.getElem?_eq_getElem hn]
    rfl
  have harcs : net'.arcStates = net.arcStates := by
    rw [Network.arcStates, hedges]
    rfl
  rw [Arena.perform_credit]
  show (((building net).arena events).node node >>= _) = _
  rw [node_arena net events hn]
  show (Arena.updateNode _ node _ >>= _) = _
  rw [Arena.updateNode_map (by rw [arena_building]) hn, hexcess,
    arena_building, arena_building, net.nodeState_set hn hexcesses hedges, hcount, hflow, htotal,
    harcs]
  rfl

/-- **Adding capacity toward the terminals.** -/
theorem addTerminal_arena (g : Graph α) (events : List (Event α)) (node : Nat) (sink source : α) :
    (g.arena events).perform (Arena.addTerminal node sink source)
      = some (g.effect events (((), ·) <$> g.addTerminal node sink source)) := by
  cases g with
  | solved net final => rfl
  | building net =>
    rw [show (building net).addTerminal node sink source
      = building <$> net.addTerminal node sink source from rfl]
    refine (Arena.perform_bind_of_ok (b := ()) (t := (building net).arena events) rfl).trans ?_
    -- the node is checked first, then the capacities are, and then the node is credited
    by_cases hn : node < net.nodeCount
    · refine (Arena.perform_bind_of_ok (perform_ensureNode_of_lt hn events)).trans ?_
      refine (perform_totalWith net events sink source _).trans ?_
      cases ht : net.totalWith sink source with
      | error fault =>
        rw [net.addTerminal_of_error hn ht]
        rfl
      | ok total =>
        obtain ⟨net', hresult, hexcesses, hedges, hflow, htotal⟩ :=
          net.addTerminal_of_totalWith hn ht
        rw [hresult]
        exact perform_credit hn hexcesses hedges hflow htotal
    · rw [net.addTerminal_of_not_lt hn]
      exact Arena.perform_bind_of_error (perform_ensureNode_of_not_lt hn events)

/-- The arcs of an edge are added to the records, and listed at its ends. -/
theorem perform_join {edge : Edge α} {total : α} {net' : Network α}
    (ht : edge.tail < net.nodeCount) (hh : edge.head < net.nodeCount)
    (hexcesses : net'.excesses = net.excesses) (hedges : net'.edges = net.edges.push edge)
    (hflow : net'.flow = net.flow) (htotal : net'.total = total) :
    Arena.perform { (building net).arena events with total } (Arena.join edge)
      = some (.ok (), (building net').arena events) := by
  have hcount : net'.nodeCount = net.nodeCount := by
    rw [Network.nodeCount, hexcesses]
  have hlength : ((building net).arena events).arcs.length = 2 * net.edgeCount :=
    length_arcs_arena _ events
  rw [Arena.perform_join, Arena.addArcs]
  show (Arena.addLeaving _ edge.tail ((building net).arena events).arcs.length >>= fun s =>
    s.addLeaving edge.head (((building net).arena events).arcs.length + 1) >>= _) = _
  rw [hlength, Arena.addLeaving, Arena.updateNode_map (by rw [arena_building]) ht]
  show (Arena.addLeaving _ edge.head (2 * net.edgeCount + 1) >>= fun s => some (Except.ok (), s))
    = _
  rw [Arena.addLeaving, Arena.updateNode_map rfl hh, arena_building, arena_building,
    net.nodeState_push hexcesses hedges rfl, net.arcStates_push hedges, hcount, hflow, htotal]
  rfl

/-- **Joining two nodes.** -/
theorem addEdge_arena (g : Graph α) (events : List (Event α)) (edge : Edge α) :
    (g.arena events).perform (Arena.addEdge edge)
      = some (g.effect events (((), ·) <$> g.addEdge edge)) := by
  cases g with
  | solved net final => rfl
  | building net =>
    rw [show (building net).addEdge edge = building <$> net.addEdge edge from rfl]
    refine (Arena.perform_bind_of_ok (b := ()) (t := (building net).arena events) rfl).trans ?_
    -- both ends are checked before the capacities, the tail first
    by_cases ht : edge.tail < net.nodeCount
    · refine (Arena.perform_bind_of_ok (perform_ensureNode_of_lt ht events)).trans ?_
      by_cases hh : edge.head < net.nodeCount
      · refine (Arena.perform_bind_of_ok (perform_ensureNode_of_lt hh events)).trans ?_
        refine (perform_totalWith net events edge.capacity edge.reverse _).trans ?_
        cases htotal : net.totalWith edge.capacity edge.reverse with
        | error fault =>
          rw [show net.addEdge edge = .error fault by
            rw [Network.addEdge, dif_pos ht, dif_pos hh, htotal]
            rfl]
          rfl
        | ok total =>
          obtain ⟨net', hresult, hexcesses, hedges, hflow, htotal'⟩ :=
            net.addEdge_of_totalWith ht hh htotal
          rw [hresult]
          exact perform_join ht hh hexcesses hedges hflow htotal'
      · rw [show net.addEdge edge = .error (.nodeOutOfRange edge.head net.nodeCount) by
          rw [Network.addEdge, dif_pos ht, dif_neg hh]]
        exact Arena.perform_bind_of_error (perform_ensureNode_of_not_lt hh events)
    · rw [show net.addEdge edge = .error (.nodeOutOfRange edge.tail net.nodeCount) from
        dif_neg ht]
      exact Arena.perform_bind_of_error (perform_ensureNode_of_not_lt ht events)

end Graph

end MinCut
