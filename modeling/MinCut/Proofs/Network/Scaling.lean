import MinCut.Proofs.Arena.Amounts
import MinCut.Proofs.Network.Building

/-!
# Building a multiple

A network can be built again with every capacity multiplied (`Network.Scaled`). The nodes and
the edges are the same, and each amount is as many times what it was. That is plain of the
edges and of the total, and it is true of what a node is left with and of what is credited to
the flow, since differences and the smaller of two amounts are multiplied too.

All capacities are counted in the total. So as long as the multiple of the total has a word,
nothing that is multiplied leaves the range, and whatever has been accepted is accepted again.
-/

namespace MinCut

variable {w : Nat} {c : Int}

namespace Network

variable {net net' net₁ : Network (Signed w)}

/-- **A network with each amount multiplied**, and with the same nodes and edges. The amounts are
compared as integers, so that no multiple of a word need be formed. -/
structure Scaled (c : Int) (net net' : Network (Signed w)) : Prop where
  /-- What each node has left is multiplied. -/
  excesses : net'.excesses.map Signed.toInt = net.excesses.map fun x => c * x.toInt
  /-- So are the capacities of each edge, which keeps its ends. -/
  edges : net'.edges.map (Edge.map Signed.toInt) = net.edges.map (Edge.map fun x => c * x.toInt)
  /-- So is what has been credited. -/
  flow : net'.flow.toInt = c * net.flow.toInt
  /-- And so is the total. -/
  total : net'.total.toInt = c * net.total.toInt

/-- The empty network is any multiple of itself. -/
theorem empty_scaled (c : Int) : (empty : Network (Signed w)).Scaled c empty := by
  have hzero : (0 : Signed w).toInt = c * (0 : Signed w).toInt := by
    rw [Signed.toInt_zero, Int.mul_zero]
  exact ⟨by simp [empty, withRoom], by simp [empty, withRoom], hzero, hzero⟩

namespace Scaled

/-- A multiple has the same nodes. -/
theorem nodeCount_eq (h : net.Scaled c net') : net'.nodeCount = net.nodeCount := by
  have hsize := congrArg Array.size h.excesses
  rwa [Array.size_map, Array.size_map] at hsize

/-- It has the same edges. -/
theorem edgeCount_eq (h : net.Scaled c net') : net'.edgeCount = net.edgeCount := by
  have hsize := congrArg Array.size h.edges
  rwa [Array.size_map, Array.size_map] at hsize

/-- What a node has left is multiplied. -/
theorem excessAt_eq (h : net.Scaled c net') (k : Nat) : net'.excessAt k = c * net.excessAt k := by
  have hat := congrArg (fun excesses : Array Int => excesses[k]?) h.excesses
  simp only [Array.getElem?_map] at hat
  unfold excessAt
  rw [Array.getD_eq_getD_getElem?, Array.getD_eq_getD_getElem?]
  cases hx : net.excesses[k]? <;> cases hx' : net'.excesses[k]? <;> rw [hx, hx'] at hat
  · rw [Option.getD_none, Signed.toInt_zero, Int.mul_zero]
  · cases hat
  · cases hat
  · exact Option.some.inj hat

/-- An edge has the same ends, and each of its capacities is multiplied. -/
theorem edge_eq (h : net.Scaled c net') {k : Fin net.edgeCount} {k' : Fin net'.edgeCount}
    (hk : k'.val = k.val) :
    (net'.edge k').map Signed.toInt = (net.edge k).map fun x => c * x.toInt := by
  have hlt : k.val < net'.edges.size := hk ▸ k'.isLt
  obtain rfl : k' = ⟨k.val, hlt⟩ := Fin.ext hk
  have hat := congrArg (fun edges : Array (Edge Int) => edges[k.val]?) h.edges
  simp only [Array.getElem?_map] at hat
  rw [Array.getElem?_eq_getElem k.isLt, Array.getElem?_eq_getElem hlt] at hat
  exact Option.some.inj hat

/-! ## Calls that build -/

/-- Nodes that are added have nothing to be multiplied. -/
theorem addNodes (h : net.Scaled c net') (count : Nat) :
    (net.addNodes count).Scaled c (net'.addNodes count) where
  excesses := by
    show (net'.excesses ++ Array.replicate count 0).map _
      = (net.excesses ++ Array.replicate count 0).map _
    rw [Array.map_append, Array.map_append, h.excesses, Array.map_replicate, Array.map_replicate,
      Signed.toInt_zero, Int.mul_zero]
  edges := h.edges
  flow := h.flow
  total := h.total

/-- **Multiples of accepted capacities are accepted**, with a multiple of the total. -/
theorem totalWith (h : net.Scaled c net') (hw : 0 < w) (hc : 0 < c)
    {first second first' second' total : Signed w} (hok : net.totalWith first second = .ok total)
    (hfit : c * total.toInt ≤ Signed.maxValue w) (hfirst : first'.toInt = c * first.toInt)
    (hsecond : second'.toInt = c * second.toInt) :
    ∃ total', net'.totalWith first' second' = .ok total' ∧ total'.toInt = c * total.toInt := by
  obtain ⟨hnonneg, hnonneg', hsum⟩ := totalWith_spec hw hok
  have hpos : 0 ≤ first'.toInt := hfirst ▸ Int.mul_nonneg hc.le hnonneg
  have hpos' : 0 ≤ second'.toInt := hsecond ▸ Int.mul_nonneg hc.le hnonneg'
  have hmul : net'.total.toInt + first'.toInt + second'.toInt = c * total.toInt := by
    rw [h.total, hfirst, hsecond, hsum]
    ring
  have hsome : (Capacity.checkedAdd net'.total first').bind (Capacity.checkedAdd · second')
      ≠ none := by
    rw [ne_eq, Signed.checkedAdd_bind_eq_none_iff hw _ hpos hpos', hmul]
    exact not_lt.2 hfit
  obtain ⟨total', htotal'⟩ := Option.ne_none_iff_exists'.1 hsome
  have hok' : net'.totalWith first' second' = .ok total' :=
    totalWith_eq_ok_iff.2 ⟨by rwa [Signed.le_iff, Signed.toInt_zero],
      by rwa [Signed.le_iff, Signed.toInt_zero], htotal'⟩
  exact ⟨total', hok', (totalWith_spec hw hok').2.2.trans hmul⟩

/-- **Multiples at the terminals of a node** are accepted if the multiple of the new total has a
word. What is left and what is shared are multiplied, since both calls compute them exactly. -/
theorem addTerminal (h : net.Scaled c net') (hw : 0 < w) (hc : 0 < c) (hb : net.Balanced)
    (hb' : net'.Balanced) {node : Nat} {sink source sink' source' : Signed w}
    (hok : net.addTerminal node sink source = .ok net₁)
    (hfit : c * net₁.total.toInt ≤ Signed.maxValue w) (hsink : sink'.toInt = c * sink.toInt)
    (hsource : source'.toInt = c * source.toInt) :
    ∃ net₁', net'.addTerminal node sink' source' = .ok net₁' ∧ net₁.Scaled c net₁' := by
  obtain ⟨hn, htotal, _⟩ := addTerminal_eq_ok hok
  obtain ⟨total', htotal', hmul⟩ := h.totalWith hw hc htotal hfit hsink hsource
  have hn' : node < net'.nodeCount := by rwa [h.nodeCount_eq]
  obtain ⟨net₁', hok', _, _, _, rfl⟩ := addTerminal_of_totalWith hn' htotal'
  obtain ⟨_, left, hexcesses, hedges, hleft, hflow⟩ := hb.addTerminal_spec hw hok
  obtain ⟨_, left', hexcesses', hedges', hleft', hflow'⟩ := hb'.addTerminal_spec hw hok'
  have hmax (y : Int) : max (c * y) 0 = c * max y 0 := by
    rw [mul_max_of_nonneg _ _ hc.le, mul_zero]
  have hmax' (y : Int) : max (-(c * y)) 0 = c * max (-y) 0 := by rw [← hmax, mul_neg]
  refine ⟨net₁', hok', ?_, ?_, ?_, hmul⟩
  · have hword : left'.toInt = c * left.toInt := by
      rw [hleft', hleft, h.excessAt_eq, hmax, hmax', hsink, hsource]
      ring
    simp only [hexcesses', hexcesses, Array.map_set, h.excesses, hword]
  · rw [hedges', hedges, h.edges]
  · rw [hflow', hflow, h.flow, h.excessAt_eq, hmax, hmax', hsink, hsource, ← mul_add, ← mul_add,
      ← mul_min_of_nonneg _ _ hc.le, mul_add]

/-- **An edge with multiples** is accepted under the same condition, and only has its capacities
counted. -/
theorem addEdge (h : net.Scaled c net') (hw : 0 < w) (hc : 0 < c) {edge edge' : Edge (Signed w)}
    (hok : net.addEdge edge = .ok net₁) (hfit : c * net₁.total.toInt ≤ Signed.maxValue w)
    (hedge : edge'.map Signed.toInt = edge.map fun x => c * x.toInt) :
    ∃ net₁', net'.addEdge edge' = .ok net₁' ∧ net₁.Scaled c net₁' := by
  obtain ⟨htotal, hexcesses, hedges, hflow⟩ := addEdge_eq_ok hok
  obtain ⟨total', htotal', hmul⟩ := h.totalWith hw hc htotal hfit
    (congrArg Edge.capacity hedge) (congrArg Edge.reverse hedge)
  have hends := net₁.ends_lt edge (by rw [hedges]; exact Array.mem_push_self)
  have htail : edge'.tail = edge.tail := congrArg (fun e : Edge Int => e.tail) hedge
  have hhead : edge'.head = edge.head := congrArg (fun e : Edge Int => e.head) hedge
  rw [hexcesses, ← htail, ← hhead] at hends
  obtain ⟨net₁', hok', hexcesses', hedges', hflow', rfl⟩ :=
    addEdge_of_totalWith (h.nodeCount_eq ▸ hends.1) (h.nodeCount_eq ▸ hends.2) htotal'
  refine ⟨net₁', hok', ?_, ?_, ?_, hmul⟩
  · rw [hexcesses', hexcesses, h.excesses]
  · rw [hedges', hedges, Array.map_push, Array.map_push, h.edges, hedge]
  · rw [hflow', hflow, h.flow]

end Scaled

end Network

end MinCut
