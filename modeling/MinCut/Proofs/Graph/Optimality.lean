import MinCut.Proofs.Graph.History

/-!
# The flow is a smallest cut

Solving a graph always succeeds. The flow it gives is the smallest value that any
set of nodes has as a cut, counted from the calls that have built the graph, and
the nodes reported on the source's side are a set of that value
(`Solution.Optimal`).

There may be several smallest cuts, and the trees at the end tell which of them is
reported (`Network.Extreme`). The source's tree holds just the nodes that what
is left of the capacities lets flow reach from the source, so it lies within every
smallest cut. The sink's tree holds those from which flow reaches the sink, and
every smallest cut avoids it. Nodes in neither tree could be on either side.
-/

namespace MinCut

open Finset

variable {w : Nat}

/-- **A solution that attains the smallest cut** of `n` nodes, with the nodes that
it reports on the source's side. -/
structure Solution.Optimal (n : Nat) (value : Finset Nat → Int) (nodes : List Nat)
    (solution : Solution (Signed w)) : Prop where
  /-- The flow is the smallest value of a cut. -/
  isLeast_flow : IsLeast {x | ∃ X ⊆ range n, value X = x} solution.flow.toInt
  /-- The solved graph lists these nodes. -/
  sourceCut : solution.graph.sourceCut = .ok nodes
  /-- It tells the side of each node in the same way. -/
  side {v : Nat} : v < n →
    solution.graph.side v = .ok (if v ∈ nodes then .source else .sink)
  /-- The nodes on the source's side are among those of the graph. -/
  nodes_subset : nodes.toFinset ⊆ range n
  /-- They make a cut of the value of the flow. -/
  value_nodes : value nodes.toFinset = solution.flow.toInt

/-- **A graph that is solved by a smallest cut**: there is a solution, and it attains the smallest
cut of the nodes. -/
def Graph.Optimal (value : Finset Nat → Int) (g : Graph (Signed w)) : Prop :=
  ∃ solution nodes, g.solve = .ok solution ∧ solution.Optimal g.nodeCount value nodes

/-- **The extreme smallest cuts**, as the search on a network shows them at its end,
with the nodes that are reported on the source's side. -/
structure Network.Extreme (net : Network (Signed w))
    (final : Search (Signed w) net.nodeCount net.edgeCount) (value : Finset Nat → Int)
    (nodes : List Nat) : Prop where
  /-- The solved graph lists these nodes. -/
  sourceCut : (Graph.solved net final).sourceCut = .ok nodes
  /-- The cut reported is within every smallest cut. -/
  isLeast_nodes : IsLeast {X | IsMinCut net.nodeCount value X} nodes.toFinset
  /-- It is what can be reached from the source. -/
  mem_nodes_iff {v : Fin net.nodeCount} : v.val ∈ nodes
    ↔ ∃ u, 0 < (final.residual.excess u).toInt
      ∧ Relation.ReflTransGen (final.residual.Runs net.topology) u v
  /-- The sink's tree is what the sink can be reached from. -/
  side?_eq_sink_iff {v : Fin net.nodeCount} : final.forest.side? v = some .sink
    ↔ ∃ u, (final.residual.excess u).toInt < 0
      ∧ Relation.ReflTransGen (final.residual.Runs net.topology) v u
  /-- All other nodes together contain every smallest cut. -/
  isGreatest_compl_sink : IsGreatest {X | IsMinCut net.nodeCount value X}
    (range net.nodeCount \ final.forest.region .sink)
  /-- The nodes in neither tree are the rest. -/
  side?_eq_none_iff {v : Fin net.nodeCount} : final.forest.side? v = none
    ↔ v.val ∉ nodes ∧ v.val ∉ final.forest.region .sink
  /-- They are reported on the sink's side. -/
  side_of_free {v : Fin net.nodeCount} : final.forest.side? v = none →
    (Graph.solved net final).side v = .ok .sink

/-- **A network whose solution shows the extreme smallest cuts.** -/
def Network.ShowsExtremes (value : Finset Nat → Int) (net : Network (Signed w)) : Prop :=
  ∃ final solution nodes, (Graph.building net).solve = .ok solution
    ∧ solution.graph = .solved net final ∧ net.Extreme final value nodes

/-- The nodes that a search reports on the source's side. -/
def Search.sourceNodes {n m : Nat} (final : Search (Signed w) n m) : List Nat :=
  ((List.finRange n).filter fun v => final.forest.side? v = some .source).map Fin.val

/-- A node is among them if it is in the source's tree. -/
theorem Search.val_mem_sourceNodes {n m : Nat} (final : Search (Signed w) n m) (v : Fin n) :
    v.val ∈ final.sourceNodes ↔ final.forest.side? v = some .source := by
  unfold sourceNodes
  rw [List.mem_map]
  constructor
  · rintro ⟨u, hu, huv⟩
    obtain rfl := Fin.ext huv
    exact of_decide_eq_true (List.mem_filter.1 hu).2
  · intro hv
    exact ⟨v, List.mem_filter.2 ⟨List.mem_finRange v, decide_eq_true hv⟩, rfl⟩

/-- The nodes reported are those of the source's tree. -/
theorem Search.toFinset_sourceNodes {n m : Nat} (final : Search (Signed w) n m) :
    final.sourceNodes.toFinset = final.forest.region .source := by
  ext k
  rw [List.mem_toFinset]
  constructor
  · intro hk
    obtain ⟨v, _, rfl⟩ := List.mem_map.1 hk
    exact Forest.val_mem_region.2 ((final.val_mem_sourceNodes v).1 hk)
  · intro hk
    obtain ⟨v, _, rfl⟩ := mem_image.1 hk
    exact (final.val_mem_sourceNodes v).2 (Forest.val_mem_region.1 hk)

namespace Graph

/-- The side of a node of a solved graph. -/
theorem side_solved {net : Network (Signed w)}
    (final : Search (Signed w) net.nodeCount net.edgeCount) (v : Fin net.nodeCount) :
    (solved net final).side v = .ok ((final.forest.side? v).getD .sink) :=
  dif_pos v.isLt

/-- Calls that put three nodes in a row between the source and the sink, with the
same capacity all along, so that there are four smallest cuts. The last call is
refused. -/
def row : List (Call (Signed 8)) :=
  [.addNodes 3, .addTerminal 0 0 (.ofInt 2), .addTerminal 2 (.ofInt 2) 0,
    .addEdge ⟨0, 1, .ofInt 2, 0⟩, .addEdge ⟨1, 2, .ofInt 2, 0⟩, .addEdge ⟨2, 3, .ofInt 2, 0⟩]

/-- **Solving a graph gives the value of a smallest cut, and a smallest cut.** -/
theorem solve_optimal (hw : 0 < w) (calls : List (Call (Signed w)))
    (hcalls : ∀ c ∈ calls, c.builds = true) :
    ((empty : Graph (Signed w)).answers calls).2.Optimal
      (cutValue ((empty : Graph (Signed w)).accepted calls)) := by
  obtain ⟨net, hanswers, hbalanced, hcut⟩ := empty_answers hw hcalls
  obtain ⟨final, hsearch, _, hfinished⟩ := hbalanced.search hw
  obtain ⟨solution, hsolve, hgraph, hflow⟩ := solve_building hsearch
  rw [hcut] at hfinished
  rw [hanswers]
  have hvalue : cutValue ((empty : Graph (Signed w)).accepted calls)
      final.sourceNodes.toFinset = solution.flow.toInt := by
    rw [hflow, final.toFinset_sourceNodes]
    exact hfinished.value_region_source
  have hsubset : final.sourceNodes.toFinset ⊆ range net.nodeCount := by
    rw [final.toFinset_sourceNodes]
    exact final.forest.region_subset .source
  refine ⟨solution, final.sourceNodes, hsolve, ⟨⟨_, hsubset, hvalue⟩, ?_⟩, ?_, fun {v} hv => ?_,
    hsubset, hvalue⟩
  · -- no cut is worth less, since all flow has to pass it
    rintro x ⟨X, _, rfl⟩
    rw [hflow]
    exact hfinished.flow_le X
  · rw [hgraph]
    rfl
  · rw [hgraph]
    refine (side_solved final ⟨v, hv⟩).trans ?_
    have hmem := final.val_mem_sourceNodes ⟨v, hv⟩
    rcases hside : final.forest.side? ⟨v, hv⟩ with _ | _ | _ <;> simp [hmem, hside]

/-- Three nodes in a row, with all calls accepted but the last. -/
theorem solve_optimal_row : (0 < 8 ∧ ∀ c ∈ row, c.builds = true)
    ∧ (empty.answers row).2.nodeCount = 3
    ∧ (empty.answers row).2.Optimal (cutValue row.dropLast) := by
  have hw : 0 < 8 := by decide
  have hcalls : ∀ c ∈ row, c.builds = true := by decide
  exact ⟨⟨hw, hcalls⟩, rfl, solve_optimal hw row hcalls⟩

/-- **The cut reported is the least of the smallest cuts**, and the sink's tree shows
the greatest. -/
theorem solve_extreme (hw : 0 < w) (calls : List (Call (Signed w)))
    (hcalls : ∀ c ∈ calls, c.builds = true) :
    Builds calls (Network.ShowsExtremes
      (cutValue ((empty : Graph (Signed w)).accepted calls))) := by
  obtain ⟨net, hanswers, hbalanced, hcut⟩ := empty_answers hw hcalls
  obtain ⟨final, hsearch, _, hfinished⟩ := hbalanced.search hw
  obtain ⟨solution, hsolve, hgraph, _⟩ := solve_building hsearch
  rw [hcut] at hfinished
  have hforest := hfinished.forest_sound
  have hqueue := hfinished.queue_eq_nil
  have hreaches (u v : Fin net.nodeCount) : final.residual.support.Reaches net.topology u v
      ↔ Relation.ReflTransGen (final.residual.Runs net.topology) u v := by
    rw [Support.Reaches, Residual.step_support]
  refine ⟨net, hanswers, final, solution, final.sourceNodes, hsolve, hgraph, rfl, ?_,
    fun {v} => ?_, fun {v} => ?_, hfinished.isMinCut_compl_sink, fun {v} => ?_, fun {v} hv => ?_⟩
  · rw [final.toFinset_sourceNodes]
    exact hfinished.isMinCut_region_source
  · rw [Search.val_mem_sourceNodes, hforest.side?_eq_source_iff hqueue]
    exact exists_congr fun u =>
      and_congr Residual.terminal_support_source_iff (hreaches u v)
  · rw [hforest.side?_eq_sink_iff hqueue]
    exact exists_congr fun u => and_congr Residual.terminal_support_sink_iff (hreaches v u)
  · rw [Search.val_mem_sourceNodes, Forest.val_mem_region]
    rcases final.forest.side? v with _ | _ | _ <;> simp
  · rw [side_solved, hv]
    rfl

/-- Three nodes in a row, with all calls accepted but the last. -/
theorem solve_extreme_row : (0 < 8 ∧ ∀ c ∈ row, c.builds = true)
    ∧ Builds row (Network.ShowsExtremes (cutValue row.dropLast)) := by
  have hw : 0 < 8 := by decide
  have hcalls : ∀ c ∈ row, c.builds = true := by decide
  exact ⟨⟨hw, hcalls⟩, solve_extreme hw row hcalls⟩

end Graph

end MinCut
