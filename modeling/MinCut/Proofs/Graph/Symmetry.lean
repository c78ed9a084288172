import MinCut.Proofs.Graph.Tally

/-!
# The solution depends on the sums alone

The search finds its paths in the order in which the calls were made, and the two trees do
not grow alike, so that two graphs that stand for the same network can be searched in quite
different ways. They still end with the same flow and the same two trees. Both trees can be
told from the values of the cuts: one is the least of the smallest cuts, and the other is
what the greatest of them leaves out (`Solution.Divided`). The values of the cuts only
depend on what the calls add up to.

So nothing is changed by the order of the calls, by the way they divide an amount between
them or by edges that lead nowhere; where the nodes are renamed the trees are renamed, and
where the two sides are exchanged the trees are exchanged (`Graph.solve_canonical`).
-/

namespace MinCut

open Finset

variable {w : Nat} {past past' : List (Call (Signed w))} {c : Call (Signed w)}
variable {g g' : Graph (Signed w)}

/-! ## The nodes of accepted calls

An accepted call names nodes that exist when it is made, and they still exist at the end. So a
history of accepted calls names no other nodes than it adds (`Grounded`), which the sums over its
nodes require. -/

/-- **What a call that adds capacities must pass** to be accepted. -/
theorem Call.checks_eq_none_iff {nodes : List Nat} {first second : Signed w} :
    (if solvedBy past then some .frozen
      else (missing past nodes).or (excessive past first second)) = none
    ↔ solvedBy past = false ∧ (∀ v ∈ nodes, v < nodesAdded past)
      ∧ 0 ≤ first.toInt ∧ 0 ≤ second.toInt
      ∧ capacityAdded past + first.toInt + second.toInt ≤ Signed.maxValue w := by
  have hmissing : missing past nodes = none ↔ ∀ v ∈ nodes, v < nodesAdded past := by
    unfold missing
    rw [Option.map_eq_none_iff, List.find?_eq_none]
    simp
  have hexcessive : excessive past first second = none ↔ 0 ≤ first.toInt ∧ 0 ≤ second.toInt
      ∧ capacityAdded past + first.toInt + second.toInt ≤ Signed.maxValue w := by
    unfold excessive
    split
    · simp_all
    · split
      · simp_all
      · split <;> simp_all
  cases solvedBy past with
  | true => simp
  | false => simp [hmissing, hexcessive]

/-- An accepted call names nodes that exist. -/
theorem Call.ends_lt (hc : c.refusal past = none) : ∀ v ∈ c.ends, v < nodesAdded past := by
  cases c with
  | addTerminal node sink source => exact (checks_eq_none_iff.1 hc).2.1
  | addEdge edge => exact (checks_eq_none_iff.1 hc).2.1
  | _ => exact fun v hv => absurd hv List.not_mem_nil

/-- Two lists of calls add the nodes of both. -/
theorem nodesAdded_append : nodesAdded (past ++ past') = nodesAdded past + nodesAdded past' := by
  unfold nodesAdded
  rw [List.map_append, List.sum_append]

/-- Whether the first of several calls is among those accepted can be told from the calls before. -/
theorem Graph.Keeps.accepted_cons (h : g.Keeps past) (hw : 0 < w) (c : Call (Signed w))
    (calls : List (Call (Signed w))) :
    g.accepted (c :: calls)
      = if c.refusal past = none then c :: (g.answer c).2.accepted calls
        else g.accepted calls := by
  rw [← h.fault?_answer hw]
  rcases g.answer_cases c with ⟨a, g', hanswer⟩ | ⟨fault, hanswer⟩
  · rw [accepted_of_ok hanswer, hanswer]
    rfl
  · rw [accepted_of_error hanswer, hanswer]
    rfl

/-- **All accepted calls name nodes that exist at the end.** -/
theorem Graph.Keeps.ends_lt (h : g.Keeps past) (hw : 0 < w) (calls : List (Call (Signed w))) :
    ∀ c ∈ g.accepted calls, ∀ v ∈ c.ends, v < nodesAdded (past ++ g.accepted calls) := by
  induction calls generalizing g past with
  | nil => exact fun c hc => absurd hc List.not_mem_nil
  | cons c calls ih =>
    rw [h.accepted_cons hw]
    split
    · rename_i hc
      intro d hd v hv
      rcases List.mem_cons.1 hd with rfl | hd
      · rw [nodesAdded_append]
        exact Nat.lt_add_right _ (Call.ends_lt hc v hv)
      · have := ih (h.answer hw hc) d hd v hv
        rwa [List.append_assoc] at this
    · exact ih h

/-- The calls that a graph accepts from the beginning name no other nodes than they add. -/
theorem Graph.grounded_accepted (hw : 0 < w) (calls : List (Call (Signed w))) :
    Grounded ((empty : Graph (Signed w)).accepted calls) :=
  empty_keeps.ends_lt hw calls

/-- A call is accepted with the sides exchanged if it is accepted as it is. -/
theorem Call.refusal_exchange (c : Call (Signed w)) :
    c.exchange.refusal (past.map exchange) = none ↔ c.refusal past = none := by
  have hchecks (nodes : List Nat) (first second : Signed w) :
      (if solvedBy (past.map exchange) then some .frozen
        else (missing (past.map exchange) nodes).or
          (excessive (past.map exchange) second first)) = none
      ↔ (if solvedBy past then some .frozen
        else (missing past nodes).or (excessive past first second)) = none := by
    rw [checks_eq_none_iff, checks_eq_none_iff, solvedBy_map_exchange,
      nodesAdded_map_exchange, capacityAdded_map_exchange, add_right_comm]
    tauto
  cases c with
  | addTerminal node sink source => exact hchecks [node] sink source
  | addEdge edge => exact hchecks [edge.tail, edge.head] edge.capacity edge.reverse
  | _ => simp [exchange, refusal, missing, solvedBy_map_exchange, nodesAdded_map_exchange]

/-- **The calls that are accepted with the sides exchanged** are those that are accepted as
they are. -/
theorem Graph.Keeps.accepted_exchange (h : g.Keeps past) (h' : g'.Keeps (past.map Call.exchange))
    (hw : 0 < w) (calls : List (Call (Signed w))) :
    g'.accepted (calls.map Call.exchange) = (g.accepted calls).map Call.exchange := by
  induction calls generalizing g g' past with
  | nil => rfl
  | cons c calls ih =>
    rw [List.map_cons, h.accepted_cons hw, h'.accepted_cons hw,
      if_congr c.refusal_exchange rfl rfl]
    split
    · rename_i hc
      have hnext' := h'.answer hw (c.refusal_exchange.2 hc)
      rw [← List.map_singleton, ← List.map_append] at hnext'
      rw [List.map_cons, ih (h.answer hw hc) hnext']
    · exact ih h h'

/-! ## The tags of the nodes

A solved graph tags a node by the tree it is in. The trees are given by the extreme minimum cuts,
which are the same for all searches on networks with the same cut values, and so the tags are
determined by the cut values (`Graph.solve_divided`). -/

/-- **The tag of each node**: the tree it is in, if any. -/
def Graph.tags (g : Graph (Signed w)) : List (Option Side) := g.snapshot.nodes.map NodeState.side

/-- The tag of a node, given the two trees. -/
def tagIn (source sink : Finset Nat) (v : Nat) : Option Side :=
  if v ∈ source then some .source else if v ∈ sink then some .sink else none

/-- **How a solution divides `n` nodes**: into two trees, one of which is the least of the
smallest cuts, while the other is outside the greatest. -/
structure Solution.Divided (n : Nat) (value : Finset Nat → Int) (source sink : Finset Nat)
    (solution : Solution (Signed w)) : Prop where
  /-- The flow is the value of the source's tree as a cut. -/
  value_source : value source = solution.flow.toInt
  /-- This is the least of the smallest cuts. -/
  isLeast_source : IsLeast {X | IsMinCut n value X} source
  /-- What is outside the sink's tree is the greatest of them. -/
  isGreatest_compl_sink : IsGreatest {X | IsMinCut n value X} (range n \ sink)
  /-- There are only nodes in the sink's tree. -/
  sink_subset : sink ⊆ range n
  /-- Each node has the tag of its tree. -/
  tags_eq : solution.graph.tags = (List.range n).map (tagIn source sink)
  /-- The graph tells the flow when it is asked. -/
  graph_flow_eq : solution.graph.flow = .ok solution.flow
  /-- A node is on the sink's side if it has no tag. -/
  side_eq (v : Nat) : solution.graph.side v
    = if v < n then .ok ((tagIn source sink v).getD .sink) else .error (.nodeOutOfRange v n)
  /-- The nodes of the source's tree are listed. -/
  sourceCut_eq : solution.graph.sourceCut = .ok ((List.range n).filter (· ∈ source))

section Reading

variable {net : Network (Signed w)} (final : Search (Signed w) net.nodeCount net.edgeCount)

/-- The tag of a node tells the tree that it is in. -/
theorem Forest.tagIn_region {n m : Nat} (f : Forest n m) (v : Fin n) :
    tagIn (f.region .source) (f.region .sink) v = f.side? v := by
  unfold tagIn
  rw [if_congr val_mem_region rfl rfl, if_congr val_mem_region rfl rfl]
  rcases f.side? v with _ | _ | _ <;> rfl

/-- A solved graph shows the tags. -/
theorem Graph.tags_eq_tagIn : (solved net final).tags = (List.range net.nodeCount).map
    (tagIn (final.forest.region .source) (final.forest.region .sink)) := by
  show (((List.finRange net.nodeCount).map _).map NodeState.side) = _
  rw [List.map_map, ← List.map_coe_finRange_eq_range, List.map_map]
  exact List.map_congr_left fun v _ => (final.forest.tagIn_region v).symm

/-- It tells sides by them. -/
theorem Graph.side_eq_tagIn (v : Nat) : (solved net final).side v
    = if v < net.nodeCount then
        .ok ((tagIn (final.forest.region .source) (final.forest.region .sink) v).getD .sink)
      else .error (.nodeOutOfRange v net.nodeCount) := by
  show (if h : v < net.nodeCount then _ else _) = if v < net.nodeCount then _ else _
  split
  case isTrue hv =>
    exact congrArg (fun t : Option Side => Except.ok (t.getD .sink))
      (final.forest.tagIn_region ⟨v, hv⟩).symm
  case isFalse => rfl

/-- It lists the nodes of the source's tree in their order. -/
theorem Graph.sourceCut_eq_filter : (solved net final).sourceCut
    = .ok ((List.range net.nodeCount).filter (· ∈ final.forest.region .source)) := by
  show Except.ok _ = _
  rw [← List.map_coe_finRange_eq_range, List.filter_map]
  congr 2
  exact List.filter_congr fun v _ => decide_eq_decide.2 Forest.val_mem_region.symm

end Reading

/-- **Solving a graph divides its nodes.** The trees at the end of the search are the least of the
smallest cuts and what the greatest of them leaves out, and the answers of the solved graph are
read off the trees. -/
theorem Graph.solve_divided (hw : 0 < w) {calls : List (Call (Signed w))}
    (hcalls : ∀ c ∈ calls, c.builds = true) :
    ∃ solution source sink, ((empty : Graph (Signed w)).answers calls).2.solve = .ok solution
      ∧ solution.Divided (nodesAdded ((empty : Graph (Signed w)).accepted calls))
          (cutValue ((empty : Graph (Signed w)).accepted calls)) source sink := by
  have hcount := (empty_keeps.answers hw calls).nodeCount_eq
  obtain ⟨net, hanswers, hbalanced, hcut⟩ := empty_answers hw hcalls
  obtain ⟨final, hsearch, _, hfinished⟩ := hbalanced.search hw
  obtain ⟨solution, hsolve, hgraph, hflow⟩ := solve_building hsearch
  rw [hanswers, List.nil_append] at hcount
  rw [hcut] at hfinished
  rw [hanswers, ← hcount]
  refine ⟨solution, final.forest.region .source, final.forest.region .sink, hsolve, ?_⟩
  exact {
    value_source := by
      rw [hflow]
      exact hfinished.value_region_source
    isLeast_source := hfinished.isMinCut_region_source
    isGreatest_compl_sink := hfinished.isMinCut_compl_sink
    sink_subset := final.forest.region_subset .sink
    tags_eq := by
      rw [hgraph]
      exact tags_eq_tagIn final
    graph_flow_eq := by
      rw [hgraph, hflow]
      rfl
    side_eq := fun v => by
      rw [hgraph]
      exact side_eq_tagIn final v
    sourceCut_eq := by
      rw [hgraph]
      exact sourceCut_eq_filter final }

/-! ## Solutions side by side

Two histories with the same sums have the same cut values. The solutions of both then have the same
flow and the same trees, whatever the networks look like and whichever paths have been augmented. -/

/-- **Two solutions give the same answers.** -/
structure Solution.Alike (solution solution' : Solution (Signed w)) : Prop where
  /-- The flow is the same, -/
  flow_eq : solution'.flow = solution.flow
  /-- also when the graphs are asked for it. -/
  graph_flow_eq : solution'.graph.flow = solution.graph.flow
  /-- Each node is in the same tree. -/
  tags_eq : solution'.graph.tags = solution.graph.tags
  /-- It is told to be on the same side. -/
  side_eq (v : Nat) : solution'.graph.side v = solution.graph.side v
  /-- The same nodes are listed. -/
  sourceCut_eq : solution'.graph.sourceCut = solution.graph.sourceCut

/-- **One solution is another with the nodes renamed.** -/
structure Solution.Renames (σ : Equiv.Perm Nat) (solution solution' : Solution (Signed w)) :
    Prop where
  /-- The flow is the same. -/
  flow_eq : solution'.flow = solution.flow
  /-- A node is in the tree in which it is by its new name. -/
  tags_eq (v : Nat) : solution'.graph.tags[σ v]? = solution.graph.tags[v]?
  /-- It is told to be on the same side. -/
  side_eq {v : Nat} : v < solution.graph.tags.length →
    solution'.graph.side (σ v) = solution.graph.side v
  /-- It is listed by its new name if it is by its old one. -/
  mem_sourceCut : ∃ nodes nodes', solution.graph.sourceCut = .ok nodes
    ∧ solution'.graph.sourceCut = .ok nodes' ∧ ∀ v, σ v ∈ nodes' ↔ v ∈ nodes

/-- **One solution is another with the sides exchanged.** A node without a tag is left
without one. -/
structure Solution.Exchanges (solution solution' : Solution (Signed w)) : Prop where
  /-- The flow is the same. -/
  flow_eq : solution'.flow = solution.flow
  /-- Each node is in the other tree. -/
  tags_eq : solution'.graph.tags = solution.graph.tags.map (Option.map Side.opposite)

variable {n n' : Nat} {value value' : Finset Nat → Int} {X source sink source' sink' : Finset Nat}
variable {solution solution' : Solution (Signed w)}

namespace Solution.Divided

/-- There are only nodes in the source's tree. -/
theorem source_subset (h : solution.Divided n value source sink) : source ⊆ range n :=
  h.isLeast_source.1.subset

/-- No node is in both trees. -/
theorem notMem_sink (h : solution.Divided n value source sink) {v : Nat} (hv : v ∈ source) :
    v ∉ sink :=
  (mem_sdiff.1 (h.isLeast_source.2 h.isGreatest_compl_sink.1 hv)).2

/-- The value of the source's tree tells the flow. -/
theorem flow_eq_of_value (h : solution.Divided n value source sink)
    (h' : solution'.Divided n' value' source' sink') (hvalue : value' source' = value source) :
    solution'.flow = solution.flow := by
  rwa [h.value_source, h'.value_source, Signed.toInt_inj] at hvalue

/-- **The values of the cuts tell the solution.** -/
theorem alike (h : solution.Divided n value source sink)
    (h' : solution'.Divided n value source' sink') : solution.Alike solution' := by
  obtain rfl : source' = source := h'.isLeast_source.unique h.isLeast_source
  obtain rfl : sink' = sink := by
    rw [← Finset.sdiff_sdiff_eq_self h.sink_subset, ← Finset.sdiff_sdiff_eq_self h'.sink_subset,
      h'.isGreatest_compl_sink.unique h.isGreatest_compl_sink]
  have hflow := h.flow_eq_of_value h' rfl
  refine ⟨hflow, ?_, ?_, fun v => ?_, ?_⟩
  · rw [h.graph_flow_eq, h'.graph_flow_eq, hflow]
  · rw [h.tags_eq, h'.tags_eq]
  · rw [h.side_eq, h'.side_eq]
  · rw [h.sourceCut_eq, h'.sourceCut_eq]

end Solution.Divided

/-! ## Renaming the nodes

A renaming maps cuts to cuts of the same value. It maps the least minimum cut of one history to that
of the other, and the greatest to the greatest, so that each node has the tag under its new name
that it had under the old one. -/

namespace Matches

variable {σ : Equiv.Perm Nat}

/-- The nodes of a history keep among themselves when they are renamed. -/
theorem map_subset (h : Matches σ past past') (hX : X ⊆ range (nodesAdded past)) :
    X.map σ.toEmbedding ⊆ range (nodesAdded past') := by
  intro v hv
  obtain ⟨u, hu, rfl⟩ := mem_map.1 hv
  rw [h.nodesAdded_eq]
  exact mem_range.2 ((h.lt_iff u).2 (mem_range.1 (hX hu)))

/-- A smallest cut is one when renamed. -/
theorem isMinCut_map (h : Matches σ past past') (hpast : Grounded past)
    (hpast' : Grounded past') (hX : IsMinCut (nodesAdded past) (cutValue past) X) :
    IsMinCut (nodesAdded past') (cutValue past') (X.map σ.toEmbedding) := by
  refine ⟨h.map_subset hX.subset, fun {Y} hY => ?_⟩
  calc cutValue past' (X.map σ.toEmbedding)
      = cutValue past X := h.cutValue_map hpast hpast' X
    _ ≤ cutValue past (Y.map σ.symm.toEmbedding) := hX.value_le (h.symm.map_subset hY)
    _ = cutValue past' Y := h.symm.cutValue_map hpast' hpast Y

/-- A node is in a cut that is renamed back if it is in it by its new name. -/
theorem mem_map_symm {Y : Finset Nat} {v : Nat} : v ∈ Y.map σ.symm.toEmbedding ↔ σ v ∈ Y := by
  rw [mem_map_equiv, Equiv.symm_symm]

/-- The smallest of the smallest cuts is renamed with the nodes. -/
theorem source_eq (h : Matches σ past past') (hpast : Grounded past) (hpast' : Grounded past')
    (hd : solution.Divided (nodesAdded past) (cutValue past) source sink)
    (hd' : solution'.Divided (nodesAdded past') (cutValue past') source' sink') :
    source' = source.map σ.toEmbedding := by
  refine hd'.isLeast_source.unique
    ⟨h.isMinCut_map hpast hpast' hd.isLeast_source.1, fun Y hY v hv => ?_⟩
  obtain ⟨u, hu, rfl⟩ := mem_map.1 hv
  exact mem_map_symm.1 (hd.isLeast_source.2 (h.symm.isMinCut_map hpast' hpast hY) hu)

/-- And so is the largest one. -/
theorem compl_sink_eq (h : Matches σ past past') (hpast : Grounded past)
    (hpast' : Grounded past')
    (hd : solution.Divided (nodesAdded past) (cutValue past) source sink)
    (hd' : solution'.Divided (nodesAdded past') (cutValue past') source' sink') :
    range (nodesAdded past') \ sink' = (range (nodesAdded past) \ sink).map σ.toEmbedding := by
  refine hd'.isGreatest_compl_sink.unique
    ⟨h.isMinCut_map hpast hpast' hd.isGreatest_compl_sink.1, fun Y hY v hv => ?_⟩
  refine mem_map_equiv.2
    (hd.isGreatest_compl_sink.2 (h.symm.isMinCut_map hpast' hpast hY) (mem_map_symm.2 ?_))
  rwa [Equiv.apply_symm_apply]

/-- **A node keeps its tag** under its new name. -/
theorem tagIn_eq (h : Matches σ past past') (hpast : Grounded past) (hpast' : Grounded past')
    (hd : solution.Divided (nodesAdded past) (cutValue past) source sink)
    (hd' : solution'.Divided (nodesAdded past') (cutValue past') source' sink') {v : Nat}
    (hv : v < nodesAdded past) : tagIn source' sink' (σ v) = tagIn source sink v := by
  have hv' : σ v < nodesAdded past' := h.nodesAdded_eq ▸ (h.lt_iff v).2 hv
  have hsource : σ v ∈ source' ↔ v ∈ source := by
    rw [h.source_eq hpast hpast' hd hd', mem_map_equiv, Equiv.symm_apply_apply]
  have hcompl : σ v ∈ range (nodesAdded past') \ sink' ↔ v ∈ range (nodesAdded past) \ sink := by
    rw [h.compl_sink_eq hpast hpast' hd hd', mem_map_equiv, Equiv.symm_apply_apply]
  have hsink : σ v ∈ sink' ↔ v ∈ sink := by
    rw [mem_sdiff, mem_sdiff, mem_range, mem_range, iff_true_intro hv, iff_true_intro hv',
      true_and, true_and] at hcompl
    exact not_iff_not.1 hcompl
  unfold tagIn
  rw [if_congr hsource rfl (if_congr hsink rfl rfl)]

/-- **The trees are renamed with the nodes.** -/
theorem renames (h : Matches σ past past') (hpast : Grounded past) (hpast' : Grounded past')
    (hd : solution.Divided (nodesAdded past) (cutValue past) source sink)
    (hd' : solution'.Divided (nodesAdded past') (cutValue past') source' sink') :
    solution.Renames σ solution' := by
  have hsource := h.source_eq hpast hpast' hd hd'
  have htag {v : Nat} (hv : v < nodesAdded past) := h.tagIn_eq hpast hpast' hd hd' hv
  have hlt (v : Nat) : σ v < nodesAdded past' ↔ v < nodesAdded past := by
    rw [h.nodesAdded_eq]
    exact h.lt_iff v
  exact {
    flow_eq := hd.flow_eq_of_value hd' (by
      rw [hsource]
      exact h.cutValue_map hpast hpast' source)
    tags_eq := fun v => by
      rw [hd.tags_eq, hd'.tags_eq, List.getElem?_map, List.getElem?_map]
      by_cases hv : v < nodesAdded past
      · rw [List.getElem?_range hv, List.getElem?_range ((hlt v).2 hv)]
        exact congrArg some (htag hv)
      · have hnone {k u : Nat} (hu : ¬u < k) : (List.range k)[u]? = none :=
          List.getElem?_eq_none (by rwa [List.length_range, ← not_lt])
        rw [hnone hv, hnone (mt (hlt v).1 hv)]
        rfl
    side_eq := fun {v} hv => by
      rw [hd.tags_eq, List.length_map, List.length_range] at hv
      rw [hd.side_eq, hd'.side_eq, if_pos hv, if_pos ((hlt v).2 hv), htag hv]
    mem_sourceCut := by
      refine ⟨_, _, hd.sourceCut_eq, hd'.sourceCut_eq, fun v => ?_⟩
      simp only [List.mem_filter, List.mem_range, hlt, decide_eq_true_eq, hsource, mem_map_equiv,
        Equiv.symm_apply_apply] }

end Matches

/-! ## Exchanging the sides

With the sides exchanged, the complement of a cut has the value of the cut. So the least minimum cut
of one history is the complement of the greatest of the other, and the two trees are exchanged. -/

namespace Opposes

/-- The complement of a smallest cut is one where the sides are exchanged. -/
theorem isMinCut_compl (h : Opposes past past') (hpast : Grounded past)
    (hpast' : Grounded past') (hX : IsMinCut (nodesAdded past) (cutValue past) X) :
    IsMinCut (nodesAdded past) (cutValue past') (range (nodesAdded past) \ X) := by
  refine ⟨sdiff_subset, fun {Y} hY => ?_⟩
  calc cutValue past' (range (nodesAdded past) \ X)
      = cutValue past X := h.cutValue_compl hpast hpast' X
    _ ≤ cutValue past (range (nodesAdded past) \ Y) := hX.value_le sdiff_subset
    _ = cutValue past' (range (nodesAdded past) \ (range (nodesAdded past) \ Y)) :=
      (h.cutValue_compl hpast hpast' _).symm
    _ = cutValue past' Y := by rw [Finset.sdiff_sdiff_eq_self hY]

/-- And so is the complement of one of those. -/
theorem isMinCut_of_compl (h : Opposes past past') (hpast : Grounded past)
    (hpast' : Grounded past') (hX : IsMinCut (nodesAdded past) (cutValue past') X) :
    IsMinCut (nodesAdded past) (cutValue past) (range (nodesAdded past) \ X) := by
  have hback := h.symm.isMinCut_compl hpast' hpast (X := X)
  rw [h.nodesAdded_eq] at hback
  exact hback hX

/-- **The complements of the extreme cuts are the extreme cuts**, in the opposite order: what the
greatest one leaves out is the least one now. -/
theorem source_eq (h : Opposes past past') (hpast : Grounded past) (hpast' : Grounded past')
    (hd : solution.Divided (nodesAdded past) (cutValue past) source sink)
    (hd' : solution'.Divided (nodesAdded past) (cutValue past') source' sink') :
    source' = sink := by
  rw [← Finset.sdiff_sdiff_eq_self hd.sink_subset]
  refine hd'.isLeast_source.unique
    ⟨h.isMinCut_compl hpast hpast' hd.isGreatest_compl_sink.1, fun Y hY => ?_⟩
  exact sdiff_le_comm.1 (hd.isGreatest_compl_sink.2 (h.isMinCut_of_compl hpast hpast' hY))

/-- And what is left out by the greatest one is what the least one was. -/
theorem sink_eq (h : Opposes past past') (hpast : Grounded past) (hpast' : Grounded past')
    (hd : solution.Divided (nodesAdded past) (cutValue past) source sink)
    (hd' : solution'.Divided (nodesAdded past) (cutValue past') source' sink') :
    sink' = source := by
  rw [← Finset.sdiff_sdiff_eq_self hd'.sink_subset, ← Finset.sdiff_sdiff_eq_self hd.source_subset]
  refine congrArg (range (nodesAdded past) \ ·) (hd'.isGreatest_compl_sink.unique
    ⟨h.isMinCut_compl hpast hpast' hd.isLeast_source.1, fun Y hY => ?_⟩)
  have hdisjoint :=
    (subset_sdiff.1 (hd.isLeast_source.2 (h.isMinCut_of_compl hpast hpast' hY))).2
  exact subset_sdiff.2 ⟨hY.subset, hdisjoint.symm⟩

/-- **The trees are exchanged with the sides.** -/
theorem exchanges (h : Opposes past past') (hpast : Grounded past) (hpast' : Grounded past')
    (hd : solution.Divided (nodesAdded past) (cutValue past) source sink)
    (hd' : solution'.Divided (nodesAdded past') (cutValue past') source' sink') :
    solution.Exchanges solution' := by
  rw [h.nodesAdded_eq] at hd'
  have hsource := h.source_eq hpast hpast' hd hd'
  have hsink := h.sink_eq hpast hpast' hd hd'
  -- the least and the greatest of the smallest cuts have the same value
  have hvalue : cutValue past' source' = cutValue past source := by
    rw [hsource, ← Finset.sdiff_sdiff_eq_self hd.sink_subset, h.cutValue_compl hpast hpast']
    exact le_antisymm (hd.isGreatest_compl_sink.1.value_le hd.source_subset)
      (hd.isLeast_source.1.value_le sdiff_subset)
  have htag (v : Nat) : tagIn source' sink' v = (tagIn source sink v).map Side.opposite := by
    unfold tagIn
    rw [hsource, hsink]
    by_cases hv : v ∈ source
    · simp [hv, hd.notMem_sink hv, Side.opposite]
    · by_cases hv' : v ∈ sink <;> simp [hv, hv', Side.opposite]
  refine ⟨hd.flow_eq_of_value hd' hvalue, ?_⟩
  rw [hd.tags_eq, hd'.tags_eq, List.map_map]
  exact List.map_congr_left fun v _ => htag v

end Opposes

/-! ## Canonical solutions

The theorem is put together from the three sections before. Each of them is stated for two histories
whose sums agree in one way or another, and the calls of the theorem are shown to have such sums:
reworded, renamed, or with their sides exchanged. -/

/-- That solving what the calls have built gives a solution with a property. -/
def Graph.Yields (calls : List (Call (Signed w))) (P : Solution (Signed w) → Prop) : Prop :=
  ∃ solution, (Graph.empty.answers calls).2.solve = .ok solution ∧ P solution

/-- **A solution that only depends on the sums** of the calls that were accepted, and is renamed and
exchanged with them. -/
structure Solution.Canonical (calls : List (Call (Signed w))) (solution : Solution (Signed w)) :
    Prop where
  /-- Other calls that add up to the same. -/
  alike {calls' : List (Call (Signed w))} : (∀ c ∈ calls', c.builds = true) →
    Matches (Equiv.refl Nat) (Graph.empty.accepted calls) (Graph.empty.accepted calls') →
    Graph.Yields calls' solution.Alike
  /-- Calls that say the same in other words. -/
  alike_of_reworded {calls' : List (Call (Signed w))} : (∀ c ∈ calls', c.builds = true) →
    Reworded (Graph.empty.accepted calls) (Graph.empty.accepted calls') →
    Graph.Yields calls' solution.Alike
  /-- Calls that add up to the same with the nodes renamed. -/
  renames {calls' : List (Call (Signed w))} {σ : Equiv.Perm Nat} :
    (∀ c ∈ calls', c.builds = true) →
    Matches σ (Graph.empty.accepted calls) (Graph.empty.accepted calls') →
    Graph.Yields calls' (solution.Renames σ)
  /-- The same calls with the nodes renamed, where they are accepted. -/
  renames_of_map {calls' : List (Call (Signed w))} {σ : Equiv.Perm Nat} :
    (∀ c ∈ calls', c.builds = true) →
    (∀ v, σ v < nodesAdded (Graph.empty.accepted calls)
      ↔ v < nodesAdded (Graph.empty.accepted calls)) →
    Graph.empty.accepted calls' = (Graph.empty.accepted calls).map (Call.rename σ) →
    Graph.Yields calls' (solution.Renames σ)
  /-- With the sides exchanged the same calls are accepted. -/
  accepted_exchange : Graph.empty.accepted (calls.map Call.exchange)
    = (Graph.empty.accepted calls).map Call.exchange
  /-- They give the solution with the sides exchanged. -/
  exchanges : Graph.Yields (calls.map Call.exchange) solution.Exchanges

namespace Graph

/-- A call builds with the sides exchanged if it builds as it is. -/
theorem builds_exchange (c : Call (Signed w)) : c.exchange.builds = c.builds := by
  cases c <;> rfl

/-- **The solution of a graph only depends on what the calls add up to** that have built it, in
whatever order they came and whichever paths the search has found. -/
theorem solve_canonical (hw : 0 < w) (calls : List (Call (Signed w)))
    (hcalls : ∀ c ∈ calls, c.builds = true) :
    Yields calls (Solution.Canonical calls) := by
  obtain ⟨solution, source, sink, hsolve, hd⟩ := solve_divided hw hcalls
  have hpast := grounded_accepted hw calls
  -- whatever has been solved is divided by extreme cuts, which are renamed with the nodes
  have hrenames {calls' : List (Call (Signed w))} {σ : Equiv.Perm Nat}
      (hcalls' : ∀ c ∈ calls', c.builds = true)
      (h : Matches σ (empty.accepted calls) (empty.accepted calls')) :
      Yields calls' (solution.Renames σ) := by
    obtain ⟨solution', source', sink', hsolve', hd'⟩ := solve_divided hw hcalls'
    exact ⟨solution', hsolve', h.renames hpast (grounded_accepted hw calls') hd hd'⟩
  -- with the names as they are, all cuts have the same values
  have halike {calls' : List (Call (Signed w))} (hcalls' : ∀ c ∈ calls', c.builds = true)
      (h : Matches (Equiv.refl Nat) (empty.accepted calls) (empty.accepted calls')) :
      Yields calls' solution.Alike := by
    obtain ⟨solution', source', sink', hsolve', hd'⟩ := solve_divided hw hcalls'
    have hvalue : cutValue (empty.accepted calls') = cutValue (empty.accepted calls) := by
      funext X
      have := h.cutValue_map hpast (grounded_accepted hw calls') X
      rwa [Equiv.refl_toEmbedding, map_refl] at this
    rw [hvalue, h.nodesAdded_eq] at hd'
    exact ⟨solution', hsolve', hd.alike hd'⟩
  have hexchange : empty.accepted (calls.map Call.exchange)
      = (empty.accepted calls).map Call.exchange :=
    empty_keeps.accepted_exchange empty_keeps hw calls
  refine ⟨solution, hsolve, halike, fun hcalls' h => halike hcalls' h.matches, hrenames,
    fun hcalls' hσ h => hrenames hcalls' ?_, hexchange, ?_⟩
  · rw [h]
    exact matches_map_rename _ hσ
  · -- the other calls build, too, and are accepted, and their cuts are the complements
    have hcalls' : ∀ c ∈ calls.map Call.exchange, c.builds = true := by
      intro c hc
      obtain ⟨d, hd, rfl⟩ := List.mem_map.1 hc
      rw [builds_exchange]
      exact hcalls d hd
    obtain ⟨solution', source', sink', hsolve', hd'⟩ := solve_divided hw hcalls'
    have hpast' := grounded_accepted hw (calls.map Call.exchange)
    rw [hexchange] at hd' hpast'
    exact ⟨solution', hsolve', (opposes_map_exchange _).exchanges hpast hpast' hd hd'⟩

/-- The same row in other words: one edge is written from its other end, the other in two
parts, and one more leads from a node to itself. -/
def rowReworded : List (Call (Signed 8)) :=
  [.addNodes 3, .addEdge ⟨2, 1, 0, .ofInt 2⟩, .addEdge ⟨0, 1, .ofInt 1, 0⟩,
    .addEdge ⟨1, 1, .ofInt 9, .ofInt 3⟩, .addEdge ⟨0, 1, .ofInt 1, 0⟩,
    .addTerminal 2 (.ofInt 2) 0, .addTerminal 0 0 (.ofInt 2)]

/-- Three nodes in a row, in the first words and in others. -/
theorem solve_canonical_row : (0 < 8 ∧ ∀ c ∈ row, c.builds = true)
    ∧ Yields row fun solution => solution.Canonical row ∧ Yields rowReworded solution.Alike := by
  have hw : 0 < 8 := by decide
  have hcalls : ∀ c ∈ row, c.builds = true := by decide
  have hmatches : Matches (Equiv.refl Nat) (empty.accepted row) (empty.accepted rowReworded) := by
    have haccepted : empty.accepted row = row.dropLast := rfl
    have haccepted' : empty.accepted rowReworded = rowReworded := rfl
    rw [haccepted, haccepted']
    have hgiven (side : Side) : ∀ v < 3,
        givenTo rowReworded side v = givenTo row.dropLast side v := by
      cases side <;> decide
    have hlaid : ∀ u < 3, ∀ v < 3, u ≠ v →
        laidBetween rowReworded u v = laidBetween row.dropLast u v := by
      decide
    exact ⟨rfl, fun _ => Iff.rfl, fun side v hv => hgiven side v hv,
      fun {u v} hu hv huv => hlaid u hu v hv huv⟩
  obtain ⟨solution, hsolve, hcanonical⟩ := solve_canonical hw row hcalls
  exact ⟨⟨hw, hcalls⟩, solution, hsolve, hcanonical, hcanonical.alike (by decide) hmatches⟩

end Graph

end MinCut
