import MinCut.Forest.Path
import MinCut.Proofs.Forest.Invariant
import Mathlib.Algebra.BigOperators.Group.List.Basic
import Mathlib.Algebra.Ring.Int.Defs

/-!
# The path a bridge closes

A leg is what following the links upward gives, and in a forest in which every
chain reaches a terminal it ends at a root (`Forest.climb_leg`). Depths fall by
one from each node of a leg to the next, so no node is passed twice. The two
legs of a path are in different trees and the bridge is in neither, so that no
edge is used twice by the path, in whatever direction
(`Augmenting.nodup_edges`). This is what makes the amounts pushed along the path
independent of each other.

All of this is about one forest and the support that it has been grown on, and amounts play no part.
`Augmenting` holds what is needed of a path, and the lemmas below it are what the other modules use.
-/

namespace MinCut

variable {n m : Nat}

namespace Path

/-- The leg of a path on a side. -/
def leg (p : Path n m) : Side → Leg n m
  | .source => p.source
  | .sink => p.sink

/-- The end of the bridge on a side. -/
def foot (T : Topology n m) (p : Path n m) : Side → Fin n
  | .source => T.tail p.bridge
  | .sink => T.head p.bridge

/-- **The arcs that flow runs along** when it is sent along a path. -/
def arcs (p : Path n m) : List (Arc m) :=
  p.bridge :: (p.source.links.map Side.source.carrier ++ p.sink.links.map Side.sink.carrier)

/-- An arc of a path is its bridge or carries the flow over a link of one of its legs. -/
theorem mem_arcs {p : Path n m} {a : Arc m} :
    a ∈ p.arcs ↔ a = p.bridge ∨ ∃ s, ∃ b ∈ (p.leg s).links, s.carrier b = a := by
  simp only [arcs, List.mem_cons, List.mem_append, List.mem_map]
  constructor
  · rintro (h | ⟨b, hb, rfl⟩ | ⟨b, hb, rfl⟩)
    · exact .inl h
    · exact .inr ⟨.source, b, hb, rfl⟩
    · exact .inr ⟨.sink, b, hb, rfl⟩
  · rintro (h | ⟨s, b, hb, rfl⟩)
    · exact .inl h
    · cases s with
      | source => exact .inr (.inl ⟨b, hb, rfl⟩)
      | sink => exact .inr (.inr ⟨b, hb, rfl⟩)

end Path

/-- The nodes of a leg, from the bridge upward. -/
def Leg.nodes (T : Topology n m) (leg : Leg n m) : List (Fin n) :=
  leg.links.map T.tail ++ [leg.root]

namespace Forest

variable {T : Topology n m} {S : Support n m} {f g : Forest n m} {v : Fin n} {s : Side}
variable {leg : Leg n m} {d : Nat}

/-! ## Legs

A leg is the list of links from a node up to a root. The depths of its nodes decrease, and so no
node is passed twice. A link is the only one of its node, hence no edge is used twice either, in
whatever direction. -/

/-- **A leg follows the links** of a forest from a node to a root. -/
inductive Climb (T : Topology n m) (f : Forest n m) : Fin n → Leg n m → Prop
  /-- The leg of a root has no links. -/
  | root {v : Fin n} (h : f.link? v = some .terminal) : Climb T f v ⟨[], v⟩
  /-- The leg of a child is that of its parent with one link more. -/
  | up {v : Fin n} {a : Arc m} {leg : Leg n m} (h : f.link? v = some (.arc a))
      (rest : Climb T f (T.head a) leg) : Climb T f v ⟨a :: leg.links, leg.root⟩

/-- Following links far enough leads to a root. -/
theorem Depth.climb {bound : Nat} (h : f.Depth T v d) (hd : d ≤ bound) :
    Climb T f v (climb T f bound v) := by
  induction h generalizing bound with
  | @root v hl =>
    obtain ⟨k, rfl⟩ := Nat.exists_eq_add_of_le' hd
    unfold Forest.climb
    rw [hl]
    exact .root hl
  | @child v a d hl _ ih =>
    obtain ⟨k, rfl⟩ : ∃ k, bound = k + 1 := ⟨bound - 1, by omega⟩
    unfold Forest.climb
    rw [hl]
    exact .up hl (ih (by omega))

/-- **The way up from a node with a depth** ends at a root. -/
theorem Depth.climb_leg (h : f.Depth T v d) : Climb T f v (f.leg T v) := h.climb h.le_card

namespace Climb

/-- A leg ends at a root of the same tree. -/
theorem place_root (h : Climb T f v leg) (hl : f.Linked T S) (hv : f.side? v = some s) :
    f.place leg.root = .tree s .terminal := by
  induction h with
  | root ht =>
    obtain ⟨r, hp⟩ := exists_place_of_link? ht
    obtain rfl : r = s := Option.some.inj ((side?_of_place hp).symm.trans hv)
    exact hp
  | up ha _ ih =>
    obtain ⟨r, hp⟩ := exists_place_of_link? ha
    obtain rfl : r = s := Option.some.inj ((side?_of_place hp).symm.trans hv)
    exact ih (hl.head hp)

/-- The links of a leg are those of the nodes they start at. -/
theorem place_tail (h : Climb T f v leg) (hl : f.Linked T S) (hv : f.side? v = some s)
    {a : Arc m} (ha : a ∈ leg.links) : f.place (T.tail a) = .tree s (.arc a) := by
  induction h with
  | root _ => exact absurd ha List.not_mem_nil
  | up hlink _ ih =>
    obtain ⟨r, hp⟩ := exists_place_of_link? hlink
    obtain rfl : r = s := Option.some.inj ((side?_of_place hp).symm.trans hv)
    rcases List.mem_cons.1 ha with rfl | ha
    · rw [hl.tail hp]
      exact hp
    · exact ih (hl.head hp) ha

/-- The nodes of a leg are in the tree of the node it starts at. -/
theorem side?_of_mem (h : Climb T f v leg) (hl : f.Linked T S) (hv : f.side? v = some s)
    {u : Fin n} (hu : u ∈ leg.nodes T) : f.side? u = some s := by
  rcases List.mem_append.1 hu with hu | hu
  · obtain ⟨a, ha, rfl⟩ := List.mem_map.1 hu
    exact side?_of_place (h.place_tail hl hv ha)
  · rw [List.mem_singleton.1 hu]
    exact side?_of_place (h.place_root hl hv)

/-- Depths along a leg do not exceed that of the node it starts at. -/
theorem depth_of_mem (h : Climb T f v leg) (hl : f.Linked T S) (hd : f.Depth T v d)
    {u : Fin n} (hu : u ∈ leg.nodes T) : ∃ k ≤ d, f.Depth T u k := by
  induction h generalizing d with
  | root _ =>
    obtain rfl : u = _ := by simpa [Leg.nodes] using hu
    exact ⟨d, Nat.le_refl d, hd⟩
  | up hlink _ ih =>
    obtain ⟨r, hp⟩ := exists_place_of_link? hlink
    obtain ⟨e, rfl, he⟩ := hd.parent hlink
    rcases List.mem_cons.1 hu with rfl | hu
    · rw [hl.tail hp]
      exact ⟨e + 1, Nat.le_refl _, .child hlink he⟩
    · obtain ⟨k, hk, hdepth⟩ := ih he hu
      exact ⟨k, Nat.le_succ_of_le hk, hdepth⟩

/-- **No node of a leg is passed twice.** -/
theorem nodup_nodes (h : Climb T f v leg) (hl : f.Linked T S) (hd : f.Depth T v d) :
    (leg.nodes T).Nodup := by
  -- up the leg, on which depths fall
  induction h generalizing d with
  | root _ => exact List.nodup_singleton _
  | @up v a leg hlink rest ih =>
    obtain ⟨r, hp⟩ := exists_place_of_link? hlink
    obtain ⟨e, rfl, he⟩ := hd.parent hlink
    refine List.nodup_cons.2 ⟨fun hmem => ?_, ih he⟩
    obtain ⟨k, hk, hdepth⟩ := rest.depth_of_mem hl he hmem
    rw [hl.tail hp] at hdepth
    have := hdepth.unique hd
    omega

/-- **No edge is used twice by a leg**, in whatever direction. -/
theorem nodup_edges (h : Climb T f v leg) (hl : f.Linked T S) (hd : f.Depth T v d) :
    (leg.links.map Arc.edge).Nodup := by
  -- an edge joins two nodes of different depths, the deeper one of which it is the link of
  induction h generalizing d with
  | root _ => exact List.nodup_nil
  | @up v a leg hlink rest ih =>
    obtain ⟨r, hp⟩ := exists_place_of_link? hlink
    obtain ⟨e, rfl, he⟩ := hd.parent hlink
    refine List.nodup_cons.2 ⟨fun hmem => ?_, ih he⟩
    obtain ⟨b, hb, hedge⟩ := List.mem_map.1 hmem
    obtain ⟨k, hk, hdepth⟩ := rest.depth_of_mem hl he
      (List.mem_append_left _ (List.mem_map_of_mem hb))
    rcases Arc.eq_or_eq_sister hedge with rfl | rfl
    · rw [hl.tail hp] at hdepth
      have := hdepth.unique hd
      omega
    · -- a link down again would lead to a node deeper than any above
      have hlink' := link?_of_place (rest.place_tail hl (hl.head hp) hb)
      obtain ⟨k', rfl, hk'⟩ := hdepth.parent hlink'
      rw [T.head_sister, hl.tail hp] at hk'
      have := hk'.unique hd
      omega

/-- What a function of the nodes loses along a leg, it loses between the ends of
the leg. -/
theorem sum_links (h : Climb T f v leg) (hl : f.Linked T S) (φ : Fin n → Int) :
    (leg.links.map fun a => φ (T.tail a) - φ (T.head a)).sum = φ v - φ leg.root := by
  induction h with
  | root _ => simp
  | @up v a leg hlink _ ih =>
    obtain ⟨r, hp⟩ := exists_place_of_link? hlink
    rw [List.map_cons, List.sum_cons, ih, hl.tail hp]
    show φ v - φ (T.head a) + (φ (T.head a) - φ leg.root) = φ v - φ leg.root
    omega

/-- Legs depend on the links only. -/
theorem congr (h : Climb T f v leg) (hfg : ∀ u, g.link? u = f.link? u) : Climb T g v leg := by
  induction h with
  | root ht => exact .root ((hfg _).trans ht)
  | up ha _ ih => exact .up ((hfg _).trans ha) ih

end Climb

/-! ## Augmenting paths

The two legs of a path are in different trees, so they have no node in common, and the bridge leads
from one tree to the other. From this everything follows that sending an amount along the path
relies on. -/

/-- **A path that flow can be sent along**: a bridge from the source's tree to
the sink's that has capacity left, with the ways up from its ends. -/
structure Augmenting (T : Topology n m) (S : Support n m) (f : Forest n m) (p : Path n m) :
    Prop where
  /-- The links of the forest hold. -/
  linked : f.Linked T S
  /-- Each end of the bridge is in the tree of its side. -/
  side (s : Side) : f.side? (p.foot T s) = some s
  /-- The legs follow the links from there. -/
  climb (s : Side) : Climb T f (p.foot T s) (p.leg s)
  /-- Both chains reach a terminal. -/
  depth (s : Side) : ∃ d, f.Depth T (p.foot T s) d
  /-- The bridge has something left. -/
  carries : S.carries p.bridge = true

namespace Augmenting

variable {p : Path n m} {a b : Arc m}

/-- Flow can be sent along the path wherever all nodes are in the same places. -/
theorem of_place (h : f.Augmenting T S p) (hfg : ∀ v, g.place v = f.place v) :
    g.Augmenting T S p where
  linked := h.linked.of_place hfg
  side s := (congrArg Place.side? (hfg _)).trans (h.side s)
  climb s := (h.climb s).congr fun u => congrArg Place.link? (hfg u)
  depth s := by
    obtain ⟨d, hd⟩ := h.depth s
    exact ⟨d, hd.congr fun u _ _ => congrArg Place.link? (hfg u)⟩
  carries := h.carries

/-- A link of a leg is that of the node it starts at. -/
theorem place_tail (h : f.Augmenting T S p) (hb : b ∈ (p.leg s).links) :
    f.place (T.tail b) = .tree s (.arc b) :=
  (h.climb s).place_tail h.linked (h.side s) hb

/-- A leg ends at a root of its tree. -/
theorem place_root (h : f.Augmenting T S p) (s : Side) :
    f.place (p.leg s).root = .tree s .terminal :=
  (h.climb s).place_root h.linked (h.side s)

/-- The nodes of a leg are in its tree. -/
theorem side?_of_mem (h : f.Augmenting T S p) {u : Fin n} (hu : u ∈ (p.leg s).nodes T) :
    f.side? u = some s :=
  (h.climb s).side?_of_mem h.linked (h.side s) hu

/-- The roots have capacity left at their terminals. -/
theorem terminal_root (h : f.Augmenting T S p) (s : Side) :
    S.terminal (p.leg s).root = some s :=
  h.linked.terminal (h.place_root s)

/-- The two legs end at different roots. -/
theorem root_ne (h : f.Augmenting T S p) : p.source.root ≠ p.sink.root := by
  intro heq
  have hsource := h.terminal_root .source
  have hsink := h.terminal_root .sink
  rw [show (p.leg .source).root = (p.leg .sink).root from heq, hsink] at hsource
  exact absurd hsource (by simp)

/-- Every arc of the path has capacity left. -/
theorem carries_of_mem (h : f.Augmenting T S p) (ha : a ∈ p.arcs) : S.carries a = true := by
  rcases Path.mem_arcs.1 ha with rfl | ⟨s, b, hb, rfl⟩
  · exact h.carries
  · exact h.linked.live (h.place_tail hb)

/-- The path uses no arc from a node to itself. -/
theorem tail_ne_head (h : f.Augmenting T S p) (ha : a ∈ p.arcs) : T.tail a ≠ T.head a := by
  rcases Path.mem_arcs.1 ha with rfl | ⟨s, b, hb, rfl⟩
  · intro hloop
    have hsource : f.side? (T.tail p.bridge) = some .source := h.side .source
    have hsink : f.side? (T.head p.bridge) = some .sink := h.side .sink
    rw [hloop, hsink] at hsource
    exact absurd hsource (by simp)
  · have hplace := h.place_tail hb
    obtain ⟨d, hd⟩ := h.depth s
    obtain ⟨k, -, hk⟩ := (h.climb s).depth_of_mem h.linked hd
      (List.mem_append_left _ (List.mem_map_of_mem hb))
    have hne : T.head b ≠ T.tail b := hk.head_ne (link?_of_place hplace)
    cases s with
    | source => rwa [Side.carrier_source, T.tail_sister, T.head_sister]
    | sink => exact hne.symm

/-- Both ends of a link of a leg are in its tree. -/
theorem side?_tail_of_edge (h : f.Augmenting T S p) (hb : b ∈ (p.leg s).links)
    (hedge : a.edge = b.edge) : f.side? (T.tail a) = some s := by
  have hp := h.place_tail hb
  rcases Arc.eq_or_eq_sister hedge with rfl | rfl
  · exact side?_of_place hp
  · exact h.linked.head hp

/-- The bridge is no link of either leg. -/
theorem bridge_edge_ne (h : f.Augmenting T S p) (hb : b ∈ (p.leg s).links) :
    p.bridge.edge ≠ b.edge := by
  intro hedge
  have htail := h.side?_tail_of_edge hb hedge
  have hhead := h.side?_tail_of_edge (a := p.bridge.sister) hb hedge
  have hsource : some s = some .source := htail.symm.trans (h.side .source)
  have hsink : some s = some .sink := hhead.symm.trans (h.side .sink)
  exact absurd (hsource.symm.trans hsink) (by simp)

/-- No node of a leg is passed twice. -/
theorem nodup_leg_nodes (h : f.Augmenting T S p) (s : Side) : ((p.leg s).nodes T).Nodup := by
  obtain ⟨d, hd⟩ := h.depth s
  exact (h.climb s).nodup_nodes h.linked hd

/-- No edge is used twice by a leg. -/
theorem nodup_leg_edges (h : f.Augmenting T S p) (s : Side) :
    ((p.leg s).links.map Arc.edge).Nodup := by
  obtain ⟨d, hd⟩ := h.depth s
  exact (h.climb s).nodup_edges h.linked hd

/-- No edge is used by both legs. -/
theorem leg_edge_ne (h : f.Augmenting T S p) (ha : a ∈ p.source.links)
    (hb : b ∈ p.sink.links) : a.edge ≠ b.edge := by
  intro hedge
  have hsource := h.side?_tail_of_edge (s := .source) (a := a) ha rfl
  have hsink := h.side?_tail_of_edge (s := .sink) (a := a) hb hedge
  exact absurd (hsource.symm.trans hsink) (by simp)

/-- **No edge is used twice by the path**, in whatever direction. -/
theorem nodup_edges (h : f.Augmenting T S p) : (p.arcs.map Arc.edge).Nodup := by
  have hedge (s : Side) : Arc.edge ∘ s.carrier = (Arc.edge : Arc m → Fin m) :=
    funext fun a => s.edge_carrier a
  have hmap : p.arcs.map Arc.edge
      = p.bridge.edge :: (p.source.links.map Arc.edge ++ p.sink.links.map Arc.edge) := by
    rw [Path.arcs, List.map_cons, List.map_append, List.map_map, List.map_map, hedge, hedge]
  rw [hmap, List.nodup_cons, List.mem_append, List.nodup_append]
  refine ⟨?_, h.nodup_leg_edges .source, h.nodup_leg_edges .sink, fun k hk k' hk' hkk => ?_⟩
  · rintro (hmem | hmem)
    · obtain ⟨b, hb, hbe⟩ := List.mem_map.1 hmem
      exact h.bridge_edge_ne (s := .source) hb hbe.symm
    · obtain ⟨b, hb, hbe⟩ := List.mem_map.1 hmem
      exact h.bridge_edge_ne (s := .sink) hb hbe.symm
  · obtain ⟨b, hb, rfl⟩ := List.mem_map.1 hk
    obtain ⟨c, hc, rfl⟩ := List.mem_map.1 hk'
    exact h.leg_edge_ne hb hc hkk

/-- **A link whose capacity the path uses is a link of the path.** -/
theorem mem_links (h : f.Augmenting T S p) (hside : f.side? (T.tail a) = some s)
    (ha : s.carrier a ∈ p.arcs) : a ∈ (p.leg s).links := by
  rcases Path.mem_arcs.1 ha with hbridge | ⟨r, b, hb, hcarrier⟩
  · cases s with
    | source =>
      have hsink : f.side? (T.tail a) = some .sink := by
        rw [← T.head_sister a]
        exact (congrArg (fun b => f.side? (T.head b)) hbridge).trans (h.side .sink)
      exact absurd (hside.symm.trans hsink) (by simp)
    | sink =>
      have hsource : f.side? (T.tail a) = some .source :=
        (congrArg (fun b => f.side? (T.tail b)) hbridge).trans (h.side .source)
      exact absurd (hside.symm.trans hsource) (by simp)
  · have hedge : a.edge = b.edge := by
      rw [← s.edge_carrier a, ← r.edge_carrier b, hcarrier]
    obtain rfl : s = r :=
      Option.some.inj (hside.symm.trans (h.side?_tail_of_edge hb hedge))
    have hab : b = a := by
      rw [← s.carrier_carrier b, hcarrier, s.carrier_carrier]
    rwa [← hab]

/-- **What a function of the nodes loses along a path**, it loses between the two
roots. -/
theorem sum_arcs (h : f.Augmenting T S p) (φ : Fin n → Int) :
    (p.arcs.map fun a => φ (T.tail a) - φ (T.head a)).sum
      = φ p.source.root - φ p.sink.root := by
  have hsource : (p.source.links.map fun a => φ (T.tail a) - φ (T.head a)).sum
      = φ (T.tail p.bridge) - φ p.source.root := (h.climb .source).sum_links h.linked φ
  have hsink : (p.sink.links.map fun a => φ (T.tail a) - φ (T.head a)).sum
      = φ (T.head p.bridge) - φ p.sink.root := (h.climb .sink).sum_links h.linked φ
  -- flow runs down the links of the source's leg
  have hdown (l : List (Arc m)) :
      (l.map fun a => φ (T.tail a.sister) - φ (T.head a.sister)).sum
        = -(l.map fun a => φ (T.tail a) - φ (T.head a)).sum := by
    induction l with
    | nil => rfl
    | cons a l ih =>
      rw [List.map_cons, List.map_cons, List.sum_cons, List.sum_cons, ih, T.tail_sister,
        T.head_sister]
      omega
  have hcarrier : p.arcs.map (fun a => φ (T.tail a) - φ (T.head a))
      = (φ (T.tail p.bridge) - φ (T.head p.bridge))
        :: (p.source.links.map (fun a => φ (T.tail a.sister) - φ (T.head a.sister))
          ++ p.sink.links.map fun a => φ (T.tail a) - φ (T.head a)) := by
    rw [Path.arcs, List.map_cons, List.map_append, List.map_map, List.map_map]
    rfl
  rw [hcarrier, List.sum_cons, List.sum_append, hdown, hsource, hsink]
  omega

end Augmenting

end Forest

end MinCut
