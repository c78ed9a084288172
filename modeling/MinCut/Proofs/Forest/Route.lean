import MinCut.Proofs.Forest.Path

/-!
# The route from root to root

A path is kept as its bridge with two legs, each from the bridge upward. Flow runs over it
from the root in the source's tree down to the bridge, across it, and up to the root in the
sink's tree. `Path.route` lists the arcs of a path in this order and `Path.nodes` the nodes:
each arc leads from one node to the next (`Augmenting.map_tail_route`,
`Augmenting.map_head_route`), and no node and no edge occurs twice.
-/

namespace MinCut

variable {n m : Nat}

namespace Path

/-- **The arcs of a path**, in the order in which flow runs along them. -/
def route (p : Path n m) : List (Arc m) :=
  p.source.links.reverse.map Side.source.carrier ++ p.bridge :: p.sink.links

/-- **The nodes of a path**, in the same order. -/
def nodes (T : Topology n m) (p : Path n m) : List (Fin n) :=
  (p.source.nodes T).reverse ++ p.sink.nodes T

/-- The route goes over the arcs of the path. -/
theorem route_perm_arcs (p : Path n m) : p.route.Perm p.arcs := by
  have hsink : p.sink.links.map Side.sink.carrier = p.sink.links := List.map_id _
  unfold route arcs
  rw [List.map_reverse, hsink]
  exact List.perm_middle.trans (((List.reverse_perm _).append_right _).cons _)

/-- So it has the same arcs, though in another order. -/
theorem mem_route {p : Path n m} {a : Arc m} : a ∈ p.route ↔ a ∈ p.arcs :=
  p.route_perm_arcs.mem_iff

end Path

namespace Forest

variable {T : Topology n m} {S : Support n m} {f : Forest n m} {v : Fin n}
variable {leg : Leg n m} {p : Path n m}

/-- The nodes of a leg are the node it starts at and those its links lead to. -/
theorem Climb.nodes_eq (h : Climb T f v leg) (hl : f.Linked T S) :
    leg.nodes T = v :: leg.links.map T.head := by
  induction h with
  | root _ => rfl
  | @up v a leg hlink _ ih =>
    obtain ⟨s, hplace⟩ := exists_place_of_link? hlink
    show T.tail a :: leg.nodes T = v :: T.head a :: leg.links.map T.head
    rw [hl.tail hplace, ih]

namespace Augmenting

/-- **Each arc of the route starts at its node.** -/
theorem map_tail_route (h : f.Augmenting T S p) :
    p.route.map T.tail ++ [p.sink.root] = p.nodes T := by
  have hnodes : p.source.nodes T = T.tail p.bridge :: p.source.links.map T.head :=
    (h.climb .source).nodes_eq h.linked
  have hdown : T.tail ∘ Side.source.carrier = T.head := rfl
  unfold Path.nodes
  rw [hnodes]
  simp [Path.route, Leg.nodes, hdown]

/-- **It leads to the next one.** -/
theorem map_head_route (h : f.Augmenting T S p) :
    p.source.root :: p.route.map T.head = p.nodes T := by
  have hnodes : p.sink.nodes T = T.head p.bridge :: p.sink.links.map T.head :=
    (h.climb .sink).nodes_eq h.linked
  have hdown : T.head ∘ Side.source.carrier = T.tail := funext T.head_sister
  unfold Path.nodes
  rw [hnodes]
  simp [Path.route, Leg.nodes, hdown]

/-- **No node is passed twice.** -/
theorem nodup_nodes (h : f.Augmenting T S p) : (p.nodes T).Nodup := by
  refine List.nodup_append.2 ⟨List.nodup_reverse.2 (h.nodup_leg_nodes .source),
    h.nodup_leg_nodes .sink, fun u hu w hw huw => ?_⟩
  have hsource : f.side? u = some .source := h.side?_of_mem (List.mem_reverse.1 hu)
  have hsink : f.side? w = some .sink := h.side?_of_mem hw
  rw [huw, hsink] at hsource
  exact absurd hsource (by simp)

/-- **No edge is used twice**, in whatever direction. -/
theorem nodup_route_edges (h : f.Augmenting T S p) : (p.route.map Arc.edge).Nodup :=
  (p.route_perm_arcs.map Arc.edge).nodup_iff.2 h.nodup_edges

end Augmenting

end Forest

end MinCut
