import MinCut.Capacity.Signed
import MinCut.Network.Basic
import MinCut.Proofs.Residual.Cut
import Mathlib.Algebra.BigOperators.Fin

/-!
# What building a network adds up to

Every capacity accepted is counted in the running total, and it is found again in
the network: the flow counted twice, what is left at the nodes and the
capacities of the edges add up to the total (`Network.Balanced`). The checks on
the total are what makes all sums of the build exact.

What a call adds to the value of a cut does not depend on what has been added
before (`Network.Balanced.addTerminal`, `Network.Balanced.addEdge`). At a node this
is not plain, since what its two terminals share is credited to the flow at once:
credit and rest together are what the node was given on either side
(`absorb_spec`).

Both parts are proved call by call, and the sums over nodes and edges are taken in the order in
which the network was built. The search takes the same sums over the nodes and arcs of its topology,
and the last section leads from the one to the other.
-/

namespace MinCut

open Finset

variable {w : Nat}

/-- **What absorbing gives**, where all sums fit: the difference of what both
sides then have, and the smaller of the two. -/
theorem absorb_spec (hw : 0 < w) (excess : Signed w) {sink source : Signed w}
    (hsink : 0 ≤ sink.toInt) (hsource : 0 ≤ source.toInt)
    (hfit : |excess.toInt| + sink.toInt + source.toInt ≤ Signed.maxValue w) :
    (absorb excess sink source).1.toInt
        = (source.toInt + max excess.toInt 0) - (sink.toInt + max (-excess.toInt) 0)
      ∧ (absorb excess sink source).2.toInt
        = min (source.toInt + max excess.toInt 0) (sink.toInt + max (-excess.toInt) 0) := by
  have hmin := Signed.minValue_eq w
  have hle := le_abs_self excess.toInt
  have hneg := neg_le_abs excess.toInt
  rw [absorb_eq]
  -- what the node has left is at one of its terminals, and the new amount there is added to it
  by_cases hpos : 0 < excess
  · -- at the source
    have hpos' : 0 < excess.toInt := by simpa using Signed.lt_iff.1 hpos
    have hadd : (source + excess).toInt = source.toInt + excess.toInt :=
      Signed.toInt_add hw (by omega) (by omega)
    have hsub : (source + excess - sink).toInt = source.toInt + excess.toInt - sink.toInt := by
      rw [Signed.toInt_sub hw] <;> omega
    rw [if_pos hpos]
    refine ⟨?_, ?_⟩
    · show (source + excess - sink).toInt = _
      rw [hsub]
      omega
    · show (if source + excess < sink then source + excess else sink).toInt = _
      rw [Signed.toInt_ite_lt, hadd]
      omega
  · -- at the sink, or nowhere
    have hpos' : ¬0 < excess.toInt := by
      rwa [Signed.lt_iff, Signed.toInt_zero] at hpos
    have hadd : (sink - excess).toInt = sink.toInt - excess.toInt :=
      Signed.toInt_sub hw (by omega) (by omega)
    have hsub : (source - (sink - excess)).toInt
        = source.toInt - (sink.toInt - excess.toInt) := by
      rw [Signed.toInt_sub hw] <;> omega
    rw [if_neg hpos]
    refine ⟨?_, ?_⟩
    · show (source - (sink - excess)).toInt = _
      rw [hsub]
      omega
    · show (if source < sink - excess then source else sink - excess).toInt = _
      rw [Signed.toInt_ite_lt, hadd]
      omega

/-- **Two checked sums** fail if the exact sum of all three words is too large. -/
theorem Signed.checkedAdd_bind_eq_none_iff (hw : 0 < w) (total : Signed w)
    {first second : Signed w}
    (hfirst : 0 ≤ first.toInt) (hsecond : 0 ≤ second.toInt) :
    (Capacity.checkedAdd total first).bind (Capacity.checkedAdd · second) = none
      ↔ maxValue w < total.toInt + first.toInt + second.toInt := by
  have hmin := total.minValue_le_toInt
  constructor
  · intro hnone
    by_contra hfits
    -- the first sum is no larger than the whole, so it has a word if that has one
    have hpartial : (ofInt (total.toInt + first.toInt) : Signed w).toInt
        = total.toInt + first.toInt := toInt_ofInt hw (by omega) (by omega)
    have hsum : (ofInt (total.toInt + first.toInt + second.toInt) : Signed w).toInt
        = total.toInt + first.toInt + second.toInt := toInt_ofInt hw (by omega) (by omega)
    rw [(checkedAdd_eq_some_iff hw).2 hpartial, Option.bind_some,
      (checkedAdd_eq_some_iff hw).2 (hsum.trans (by rw [hpartial]))] at hnone
    exact absurd hnone (by simp)
  · intro hlarge
    by_contra hsome
    obtain ⟨sum, hsum⟩ := Option.ne_none_iff_exists'.1 hsome
    obtain ⟨partial', hpartial, hsum⟩ := Option.bind_eq_some_iff.1 hsum
    rw [checkedAdd_eq_some_iff hw] at hpartial hsum
    have := sum.toInt_le_maxValue
    omega

/-- What an edge adds to the value of a cut: the capacity that leads out of it. -/
def Edge.across (edge : Edge (Signed w)) (X : Finset Nat) : Int :=
  if edge.tail ∈ X ∧ edge.head ∉ X then edge.capacity.toInt
  else if edge.tail ∉ X ∧ edge.head ∈ X then edge.reverse.toInt
  else 0

namespace Network

/-! ## Sums over a network -/

/-- What a node has left at its terminals, signed toward the source. -/
def excessAt (net : Network (Signed w)) (k : Nat) : Int := (net.excesses.getD k 0).toInt

/-- A sum over the nodes of a network. -/
def sumNodes (net : Network (Signed w)) (f : Nat → Int → Int) : Int :=
  ∑ k ∈ range net.nodeCount, f k (net.excessAt k)

/-- A sum over its edges. -/
def sumEdges (net : Network (Signed w)) (f : Edge (Signed w) → Int) : Int :=
  (net.edges.toList.map f).sum

variable {net net' : Network (Signed w)}

/-- What a node has left is read off its entry. -/
theorem excessAt_eq (net : Network (Signed w)) {node : Nat} (hn : node < net.nodeCount) :
    net.excessAt node = net.excesses[node].toInt := by
  unfold excessAt
  rw [Array.getD_eq_getD_getElem?, Array.getElem?_eq_getElem hn]
  rfl

/-- The search finds the same at each node. -/
theorem excessAt_val (net : Network (Signed w)) (v : Fin net.nodeCount) :
    net.excessAt v = (net.residual.excess v).toInt := net.excessAt_eq v.isLt

/-- A sum over nodes, as the search takes it. -/
theorem sumNodes_eq (net : Network (Signed w)) (f : Nat → Int → Int) :
    net.sumNodes f = ∑ v, f v.val (net.residual.excess v).toInt := by
  unfold sumNodes
  rw [← Fin.sum_univ_eq_sum_range]
  exact sum_congr rfl fun v _ => by rw [excessAt_val]

/-- A sum over edges, as the search takes it. -/
theorem sumEdges_eq (net : Network (Signed w)) (f : Edge (Signed w) → Int) :
    net.sumEdges f = ∑ k, f (net.edge k) :=
  (Fin.sum_univ_fun_getElem net.edges.toList f).symm

/-! ## What calls change

These lemmas are about words. They say which entries an accepted call has changed, and what becomes
of sums over nodes and edges when one entry is another or is added. -/

/-- Adding nodes changes no amount. -/
theorem excessAt_addNodes (net : Network (Signed w)) (count k : Nat) :
    (net.addNodes count).excessAt k = net.excessAt k := by
  unfold excessAt addNodes
  rw [Array.getD_eq_getD_getElem?, Array.getD_eq_getD_getElem?, Array.getElem?_append]
  split
  · rfl
  · rename_i hk
    rw [Array.getElem?_replicate, Array.getElem?_eq_none (not_lt.1 hk)]
    split <;> rfl

/-- Adding nodes changes no sum to which a node without capacity contributes nothing. -/
theorem sumNodes_addNodes {f : Nat → Int → Int} (hf : ∀ k, f k 0 = 0)
    (net : Network (Signed w)) (count : Nat) :
    (net.addNodes count).sumNodes f = net.sumNodes f := by
  have hcount : (net.addNodes count).nodeCount = net.nodeCount + count := by
    simp [nodeCount, addNodes]
  have hnew (k : Nat) : net.excessAt (net.nodeCount + k) = 0 := by
    unfold excessAt
    rw [Array.getD_eq_getD_getElem?, Array.getElem?_eq_none (Nat.le_add_right _ k)]
    exact Signed.toInt_zero
  unfold sumNodes
  rw [hcount, sum_range_add]
  simp only [excessAt_addNodes, hnew, hf, sum_const_zero, add_zero]

/-- **What two accepted capacities are**, and what they add to the total. -/
theorem totalWith_spec (hw : 0 < w) {first second total : Signed w}
    (h : net.totalWith first second = .ok total) :
    0 ≤ first.toInt ∧ 0 ≤ second.toInt
      ∧ total.toInt = net.total.toInt + first.toInt + second.toInt := by
  obtain ⟨hfirst, hsecond, hsum⟩ := totalWith_eq_ok_iff.1 h
  rw [Signed.le_iff, Signed.toInt_zero] at hfirst hsecond
  obtain ⟨partial', hpartial, htotal⟩ := Option.bind_eq_some_iff.1 hsum
  rw [Signed.checkedAdd_eq_some_iff hw] at hpartial htotal
  exact ⟨hfirst, hsecond, by rw [htotal, hpartial]⟩

/-- What an accepted capacity at a node has changed. -/
theorem addTerminal_eq_ok {node : Nat} {sink source : Signed w}
    (h : net.addTerminal node sink source = .ok net') :
    ∃ hn : node < net.nodeCount, net.totalWith sink source = .ok net'.total
      ∧ net'.excesses = net.excesses.set node (absorb net.excesses[node] sink source).1
      ∧ net'.edges = net.edges
      ∧ net'.flow = net.flow + (absorb net.excesses[node] sink source).2 := by
  unfold addTerminal addingTerminal at h
  split at h
  · rename_i hn
    cases ht : net.totalWith sink source with
    | error fault =>
      rw [ht] at h
      cases h
    | ok total =>
      rw [ht] at h
      cases h
      exact ⟨hn, rfl, rfl, rfl, rfl⟩
  · cases h

/-- What an accepted edge has changed. -/
theorem addEdge_eq_ok {edge : Edge (Signed w)} (h : net.addEdge edge = .ok net') :
    net.totalWith edge.capacity edge.reverse = .ok net'.total
      ∧ net'.excesses = net.excesses ∧ net'.edges = net.edges.push edge
      ∧ net'.flow = net.flow := by
  unfold addEdge at h
  split at h
  · split at h
    · cases ht : net.totalWith edge.capacity edge.reverse with
      | error fault =>
        rw [ht] at h
        cases h
      | ok total =>
        rw [ht] at h
        cases h
        exact ⟨rfl, rfl, rfl, rfl⟩
    · cases h
  · cases h

/-- What the nodes have left after the amount at one of them has changed. -/
theorem excessAt_set {node : Nat} (hn : node < net.nodeCount) {excess : Signed w}
    (h : net'.excesses = net.excesses.set node excess) (k : Nat) :
    net'.excessAt k = if k = node then excess.toInt else net.excessAt k := by
  unfold excessAt
  rw [h, Array.getD_eq_getD_getElem?, Array.getD_eq_getD_getElem?, Array.getElem?_set]
  by_cases hk : k = node
  · rw [if_pos hk.symm, if_pos hk]
    rfl
  · rw [if_neg (Ne.symm hk), if_neg hk]

/-- A sum over nodes then: only one of its terms is another one. -/
theorem sumNodes_set {node : Nat} (hn : node < net.nodeCount) {excess : Signed w}
    (h : net'.excesses = net.excesses.set node excess) (f : Nat → Int → Int) :
    net'.sumNodes f = net.sumNodes f + (f node excess.toInt - f node (net.excessAt node)) := by
  have hcount : net'.nodeCount = net.nodeCount := by
    unfold nodeCount
    rw [h, Array.size_set]
  have hat := excessAt_set hn h
  have hmem : node ∈ range net.nodeCount := mem_range.2 hn
  unfold sumNodes
  rw [hcount, ← add_sum_erase _ _ hmem,
    ← add_sum_erase _ (fun k => f k (net.excessAt k)) hmem, hat, if_pos rfl]
  have hrest : ∑ k ∈ (range net.nodeCount).erase node, f k (net'.excessAt k)
      = ∑ k ∈ (range net.nodeCount).erase node, f k (net.excessAt k) := by
    refine sum_congr rfl fun k hk => ?_
    rw [hat, if_neg (ne_of_mem_erase hk)]
  rw [hrest]
  ring

/-- A sum over edges after one more edge. -/
theorem sumEdges_push {edge : Edge (Signed w)} (h : net'.edges = net.edges.push edge)
    (f : Edge (Signed w) → Int) : net'.sumEdges f = net.sumEdges f + f edge := by
  unfold sumEdges
  rw [h, Array.toList_push, List.map_append, List.sum_append]
  simp

/-! ## The balance of a network

These lemmas are about integers. The flow, counted twice, and all that is left at nodes and on edges
add up to the total, and from this it follows that no sum of some of them exceeds the range of
words. -/

/-- **The amounts of a network add up to its total.** Since nothing here is negative, no amount and
no sum of several of them exceeds the total, which has a word. -/
structure Balanced (net : Network (Signed w)) : Prop where
  /-- No capacity of an edge is negative. -/
  edge_nonneg {e : Edge (Signed w)} : e ∈ net.edges → 0 ≤ e.capacity.toInt ∧ 0 ≤ e.reverse.toInt
  /-- Neither is what has been credited. -/
  flow_nonneg : 0 ≤ net.flow.toInt
  /-- What has been credited was given twice, once toward each terminal. All else is still where it
  was given. -/
  ledger : 2 * net.flow.toInt + net.sumNodes (fun _ e => |e|)
    + net.sumEdges (fun e => e.capacity.toInt + e.reverse.toInt) = net.total.toInt

/-- **The value of a cut** of a network. -/
def cut (net : Network (Signed w)) (X : Finset Nat) : Int :=
  net.flow.toInt + net.sumNodes (nodeAcross X) + net.sumEdges (·.across X)

/-- Nothing has been given to the empty network, and it has nothing. -/
theorem empty_balanced : (empty : Network (Signed w)).Balanced where
  edge_nonneg he := absurd he (Array.not_mem_empty _)
  flow_nonneg := le_of_eq Signed.toInt_zero.symm
  ledger := by
    show 2 * (0 : Signed w).toInt + 0 + 0 = (0 : Signed w).toInt
    rw [Signed.toInt_zero]
    rfl

/-- A cut of the empty network is worth nothing. -/
theorem cut_empty (X : Finset Nat) : (empty : Network (Signed w)).cut X = 0 := by
  show (0 : Signed w).toInt + 0 + 0 = 0
  rw [Signed.toInt_zero]
  rfl

/-- The edges of a balanced network have no negative capacity, and neither has
their sum. -/
theorem Balanced.sumEdges_nonneg (h : net.Balanced) :
    0 ≤ net.sumEdges fun e => e.capacity.toInt + e.reverse.toInt := by
  refine List.sum_nonneg fun x hx => ?_
  obtain ⟨e, he, rfl⟩ := List.mem_map.1 hx
  obtain ⟨hcapacity, hreverse⟩ := h.edge_nonneg (Array.mem_def.2 he)
  exact Int.add_nonneg hcapacity hreverse

/-- The total counts what is not negative. -/
theorem Balanced.total_nonneg (h : net.Balanced) : 0 ≤ net.total.toInt := by
  have hnodes : 0 ≤ net.sumNodes fun _ e => |e| := sum_nonneg fun _ _ => abs_nonneg _
  have := h.ledger
  have := h.flow_nonneg
  have := h.sumEdges_nonneg
  omega

/-- What a node has left never exceeds the total. -/
theorem Balanced.flow_add_excess_le (h : net.Balanced) {node : Nat} (hn : node < net.nodeCount) :
    2 * net.flow.toInt + |net.excessAt node| ≤ net.total.toInt := by
  have hsingle : |net.excessAt node| ≤ net.sumNodes fun _ e => |e| :=
    single_le_sum (f := fun k => |net.excessAt k|) (fun _ _ => abs_nonneg _) (mem_range.2 hn)
  have := h.ledger
  have := h.sumEdges_nonneg
  omega

/-- **Adding nodes** keeps the balance and the value of every cut. -/
theorem Balanced.addNodes (h : net.Balanced) (count : Nat) :
    (net.addNodes count).Balanced ∧ ∀ X, (net.addNodes count).cut X = net.cut X := by
  refine ⟨⟨h.edge_nonneg, h.flow_nonneg, ?_⟩, fun X => ?_⟩
  · rw [sumNodes_addNodes fun _ => abs_zero]
    exact h.ledger
  · unfold cut
    rw [sumNodes_addNodes fun k => by simp [nodeAcross]]
    rfl

/-- All that a node has after capacity has been added there fits. It is part of the total then, and
that the total is a word has been checked. -/
theorem Balanced.absorb_fits (h : net.Balanced) (hw : 0 < w) {node : Nat} {sink source : Signed w}
    (hok : net.addTerminal node sink source = .ok net') (hn : node < net.nodeCount) :
    |net.excesses[node].toInt| + sink.toInt + source.toInt ≤ Signed.maxValue w := by
  obtain ⟨_, htotal, _⟩ := addTerminal_eq_ok hok
  have hsum := (totalWith_spec hw htotal).2.2
  have hbound := h.flow_add_excess_le hn
  have hfits := net'.total.toInt_le_maxValue
  have hnonneg := h.flow_nonneg
  rw [← net.excessAt_eq hn]
  omega

/-- **What accepted capacity at a node changes**, in integers: of what the node then has on
either side the difference is left, and the smaller one is credited to the flow. -/
theorem Balanced.addTerminal_spec (h : net.Balanced) (hw : 0 < w) {node : Nat}
    {sink source : Signed w} (hok : net.addTerminal node sink source = .ok net') :
    ∃ (hn : node < net.nodeCount) (left : Signed w),
      net'.excesses = net.excesses.set node left ∧ net'.edges = net.edges
      ∧ left.toInt = (source.toInt + max (net.excessAt node) 0)
        - (sink.toInt + max (-net.excessAt node) 0)
      ∧ net'.flow.toInt = net.flow.toInt
        + min (source.toInt + max (net.excessAt node) 0)
          (sink.toInt + max (-net.excessAt node) 0) := by
  obtain ⟨hn, htotal, hexcesses, hedges, hflow⟩ := addTerminal_eq_ok hok
  obtain ⟨hsink, hsource, hsum⟩ := totalWith_spec hw htotal
  have hbound := h.flow_add_excess_le hn
  have hfits := net'.total.toInt_le_maxValue
  have hnonneg := h.flow_nonneg
  obtain ⟨hleft, hshared⟩ := absorb_spec hw net.excesses[node] hsink hsource
    (h.absorb_fits hw hok hn)
  rw [← net.excessAt_eq hn] at hleft hshared
  have hle := neg_le_abs (net.excessAt node)
  have hle' := le_abs_self (net.excessAt node)
  have hmin : Signed.minValue w ≤ 0 := (0 : Signed w).minValue_le_toInt.trans (by simp)
  refine ⟨hn, _, hexcesses, hedges, hleft, ?_⟩
  -- what is shared is at most half of what the node has on both sides
  rw [← hshared, hflow]
  exact Signed.toInt_add hw (by omega) (by omega)

/-- **Adding capacity at a node** keeps the balance, and adds to a cut what the
node then has toward the terminal on the other side. -/
theorem Balanced.addTerminal (h : net.Balanced) (hw : 0 < w) {node : Nat}
    {sink source : Signed w} (hok : net.addTerminal node sink source = .ok net') :
    net'.Balanced ∧ ∀ X, net'.cut X
      = net.cut X + if node ∈ X then sink.toInt else source.toInt := by
  obtain ⟨hn, left, hexcesses, hedges, hleft, hflow⟩ := h.addTerminal_spec hw hok
  obtain ⟨hsink, hsource, hsum⟩ := totalWith_spec hw (addTerminal_eq_ok hok).2.1
  have hnonneg := h.flow_nonneg
  have hsumEdges (f : Edge (Signed w) → Int) : net'.sumEdges f = net.sumEdges f := by
    unfold sumEdges
    rw [hedges]
  refine ⟨⟨?_, by omega, ?_⟩, fun X => ?_⟩
  · rw [hedges]
    exact h.edge_nonneg
  · have hledger := h.ledger
    rw [sumNodes_set hn hexcesses, hsumEdges, hflow, hleft, hsum]
    have habs := abs_eq_max_neg (a := net.excessAt node)
    have habs' := abs_eq_max_neg (a := source.toInt + max (net.excessAt node) 0
      - (sink.toInt + max (-net.excessAt node) 0))
    omega
  · unfold cut
    rw [sumNodes_set hn hexcesses, hsumEdges, hflow, hleft]
    unfold nodeAcross
    split <;> omega

/-- **Adding an edge** keeps the balance, and adds to a cut what leads across it. -/
theorem Balanced.addEdge (h : net.Balanced) (hw : 0 < w) {edge : Edge (Signed w)}
    (hok : net.addEdge edge = .ok net') :
    net'.Balanced ∧ ∀ X, net'.cut X = net.cut X + edge.across X := by
  obtain ⟨htotal, hexcesses, hedges, hflow⟩ := addEdge_eq_ok hok
  obtain ⟨hcapacity, hreverse, hsum⟩ := totalWith_spec hw htotal
  have hsumNodes (f : Nat → Int → Int) : net'.sumNodes f = net.sumNodes f := by
    unfold sumNodes nodeCount excessAt
    rw [hexcesses]
  refine ⟨⟨fun {e} he => ?_, ?_, ?_⟩, fun X => ?_⟩
  · rw [hedges, Array.mem_push] at he
    rcases he with he | rfl
    · exact h.edge_nonneg he
    · exact ⟨hcapacity, hreverse⟩
  · rw [hflow]
    exact h.flow_nonneg
  · rw [hflow, hsumNodes, sumEdges_push hedges, hsum, ← h.ledger]
    omega
  · unfold cut
    rw [hflow, hsumNodes, sumEdges_push hedges]
    omega

/-! ## The network as the search sees it

The residual network of a balanced network is balanced, with the same total and the same values of
cuts. -/

/-- **The search begins in balance.** -/
theorem Balanced.residual (h : net.Balanced) : net.residual.Balanced net.total.toInt where
  total_le := net.total.toInt_le_maxValue
  residual_nonneg a := by
    obtain ⟨k, d⟩ := a
    have he := h.edge_nonneg (e := net.edge k) (Array.getElem_mem k.isLt)
    cases d with
    | forward =>
      rw [residual_forward]
      exact he.1
    | backward =>
      rw [residual_backward]
      exact he.2
  flow_nonneg := h.flow_nonneg
  ledger := by
    have hledger := h.ledger
    rw [sumNodes_eq, sumEdges_eq] at hledger
    rw [Arc.sum_eq]
    simp only [residual_forward, residual_backward]
    exact hledger

/-- **What is left across a cut before the search** is its value but for the flow
credited already. -/
theorem flow_add_crossing (net : Network (Signed w)) (X : Finset Nat) :
    net.residual.flow.toInt + net.residual.crossing net.topology X = net.cut X := by
  have harc (k : Fin net.edgeCount) :
      Residual.leads net.topology X ⟨k, .forward⟩ * (net.residual.residual ⟨k, .forward⟩).toInt
        + Residual.leads net.topology X ⟨k, .backward⟩
          * (net.residual.residual ⟨k, .backward⟩).toInt
      = (net.edge k).across X := by
    have htail : (net.topology.tail ⟨k, .backward⟩).val = (net.edge k).head :=
      net.head_topology_forward k
    have hhead : (net.topology.head ⟨k, .backward⟩).val = (net.edge k).tail :=
      net.tail_topology_forward k
    unfold Residual.leads Edge.across
    rw [residual_forward, residual_backward, tail_topology_forward, head_topology_forward, htail,
      hhead]
    by_cases ht : (net.edge k).tail ∈ X <;> by_cases hh : (net.edge k).head ∈ X <;>
      simp [ht, hh]
  unfold cut Residual.crossing
  rw [sumNodes_eq, sumEdges_eq, Arc.sum_eq, sum_congr rfl fun k _ => harc k, add_assoc]
  rfl

end Network

end MinCut
