import MinCut.Proofs.Forest.Route
import MinCut.Proofs.Residual.Balance

/-!
# What sending along a path does

A path is told by an arc between the two trees and the links that lead from either end of it
to a root. What happens to it is told here along its route from root to root
(`Residual.Augmented`). The least amount left on the route is sent
(`Residual.Balanced.isLeast_bottleneck`), each arc gives it to its sister, both roots draw it
from their terminals, and nothing else changes but the links that have nothing left then.
There is at least one thing used up. The nodes whose links are used up are the orphans
afterwards, and they wait in the reverse of the order in which the legs of the path are
walked, from the bridge upward and the source's side first.
-/

namespace MinCut

variable {n m w : Nat} {T : Topology n m} {total : Int}

namespace Residual

/-- Whether nothing is left on the link of a node toward the terminal of its tree. -/
def spent (r : Residual (Signed w) n m) (f : Forest n m) (v : Fin n) : Bool :=
  match f.place v with
  | .tree s (.arc a) => (r.residual (s.carrier a)).toInt = 0
  | .tree _ .terminal => (r.excess v).toInt = 0
  | _ => false

/-- The amounts left on a path, from terminal to terminal. -/
def along (r : Residual (Signed w) n m) (p : Path n m) : Set Int :=
  { y | y = (r.excess p.source.root).toInt ∨ (∃ a ∈ p.route, y = (r.residual a).toInt)
    ∨ y = -(r.excess p.sink.root).toInt }

/-- **What sending an amount along a path does** to the amounts left and to the trees. -/
structure Augmented (T : Topology n m) (r : Residual (Signed w) n m) (f : Forest n m)
    (p : Path n m) (x : Signed w) (r' : Residual (Signed w) n m) (g : Forest n m) : Prop where
  /-- The bridge leads from the source's tree to the sink's. -/
  side?_tail : f.side? (T.tail p.bridge) = some .source
  side?_head : f.side? (T.head p.bridge) = some .sink
  bridge_pos : 0 < (r.residual p.bridge).toInt
  /-- From either end the links lead to a root. -/
  climb_tail : f.Climb T (T.tail p.bridge) p.source
  climb_head : f.Climb T (T.head p.bridge) p.sink
  place_source : f.place p.source.root = .tree .source .terminal
  place_sink : f.place p.sink.root = .tree .sink .terminal
  /-- The arcs of the route lead from each of its nodes to the next. -/
  map_tail_route : p.route.map T.tail ++ [p.sink.root] = p.nodes T
  map_head_route : p.source.root :: p.route.map T.head = p.nodes T
  nodup_nodes : (p.nodes T).Nodup
  nodup_route_edges : (p.route.map Arc.edge).Nodup
  /-- The least amount left on the path is sent. -/
  isLeast : IsLeast (r.along p) x.toInt
  one_le : 1 ≤ x.toInt
  /-- Every arc of the path gives it to its sister. -/
  residual_of_mem {a : Arc m} : a ∈ p.route →
    (r'.residual a).toInt = (r.residual a).toInt - x.toInt
  residual_sister_of_mem {a : Arc m} : a ∈ p.route →
    (r'.residual a.sister).toInt = (r.residual a.sister).toInt + x.toInt
  residual_of_not_mem {a : Arc m} : a ∉ p.route → a.sister ∉ p.route →
    r'.residual a = r.residual a
  /-- Both roots draw it from their terminals. -/
  excess_source : (r'.excess p.source.root).toInt = (r.excess p.source.root).toInt - x.toInt
  excess_sink : (r'.excess p.sink.root).toInt = (r.excess p.sink.root).toInt + x.toInt
  excess_of_ne {v : Fin n} : v ≠ p.source.root → v ≠ p.sink.root → r'.excess v = r.excess v
  flow : r'.flow.toInt = r.flow.toInt + x.toInt
  /-- Something on the path is used up. -/
  zero_mem : 0 ∈ r'.along p
  /-- The nodes of the path whose links are used up lose these, and nothing else in any label
  changes. -/
  label (v : Fin n) : g.label v
    = if v ∈ p.nodes T ∧ r'.spent f v = true then
        { f.label v with place := (f.label v).place.relink .orphan }
      else f.label v
  queue : g.queue = f.queue
  time : g.time = f.time
  link?_eq_orphan_iff {v : Fin n} :
    g.link? v = some .orphan ↔ v ∈ p.nodes T ∧ r'.spent f v = true
  /-- They wait for adoption, the last one found in front. -/
  orphans : g.orphans.toList
    = ((p.source.nodes T ++ p.sink.nodes T).filter (r'.spent f)).reverse
  nodup_orphans : g.orphans.toList.Nodup

variable {r r' : Residual (Signed w) n m} {f : Forest n m} {p : Path n m} {x : Int}

/-! ## The amount sent -/

/-- **The bottleneck is the least amount left on the path.** -/
theorem Balanced.isLeast_bottleneck (h : r.Balanced total) (hw : 0 < w)
    (hp : f.Augmenting T r.support p) : IsLeast (r.along p) (p.bottleneck r).toInt := by
  have hx := h.sendable hw hp
  constructor
  · obtain ⟨a, ha, heq⟩ | heq | heq := bottleneck_cases r p
    · exact .inr (.inl ⟨a, Path.mem_route.2 ha, by rw [heq]⟩)
    · exact .inl (by rw [heq])
    · exact .inr (.inr (by rw [heq, h.toInt_neg_excess hw]))
  · rintro y (rfl | ⟨a, ha, rfl⟩ | rfl)
    · exact hx.le_source
    · exact hx.le_residual (Path.mem_route.1 ha)
    · exact hx.le_sink

/-! ## What is used up -/

namespace Moved

variable {a : Arc m}

/-- An arc of the path loses what is sent. -/
theorem residual_of_mem (h : r.Moved p x r') (hp : f.Augmenting T r.support p)
    (ha : a ∈ p.arcs) : (r'.residual a).toInt = (r.residual a).toInt - x := by
  rw [h.residual, if_pos ha, if_neg (sister_not_mem hp.nodup_edges ha), Int.add_zero]

/-- Its sister gains it. -/
theorem residual_sister_of_mem (h : r.Moved p x r') (hp : f.Augmenting T r.support p)
    (ha : a ∈ p.arcs) : (r'.residual a.sister).toInt = (r.residual a.sister).toInt + x := by
  rw [h.residual, if_neg (sister_not_mem hp.nodup_edges ha), a.sister_sister, if_pos ha,
    Int.sub_zero]

/-- **The least amount on the path is used up** when it is sent. -/
theorem zero_mem (h : r.Moved p x r') (hp : f.Augmenting T r.support p)
    (hx : x ∈ r.along p) : 0 ∈ r'.along p := by
  rcases hx with hx | ⟨a, ha, hx⟩ | hx
  · left
    rw [h.source, ← hx, Int.sub_self]
  · exact .inr (.inl ⟨a, ha, by
      rw [h.residual_of_mem hp (Path.mem_route.1 ha), ← hx, Int.sub_self]⟩)
  · right
    right
    rw [h.sink, hx]
    omega

/-- A root has used up what it had at its terminal exactly if its link does not hold. -/
theorem excess_root_eq_zero_iff (h : r.Moved p x r') (hx : r.Sendable p x) (s : Side) :
    (r'.excess (p.leg s).root).toInt = 0 ↔ r'.support.terminal (p.leg s).root ≠ some s := by
  cases s with
  | source =>
    have hle := hx.le_source
    have hamount := h.source
    rw [ne_eq, terminal_support_source_iff]
    show (r'.excess p.source.root).toInt = 0 ↔ ¬0 < (r'.excess p.source.root).toInt
    omega
  | sink =>
    have hle := hx.le_sink
    have hamount := h.sink
    rw [ne_eq, terminal_support_sink_iff]
    show (r'.excess p.sink.root).toInt = 0 ↔ ¬(r'.excess p.sink.root).toInt < 0
    omega

/-- **What hangs loose on a leg are the nodes whose links are used up.** -/
theorem leg_loose_eq (h : r.Moved p x r') (hx : r.Sendable p x)
    (hp : f.Augmenting T r.support p) (hr' : r'.Balanced total) (s : Side) :
    (p.leg s).loose T r'.support s = ((p.leg s).nodes T).filter (r'.spent f) := by
  have hlink : ∀ a ∈ (p.leg s).links, (!r'.support.live s a) = r'.spent f (T.tail a) := by
    intro a ha
    have hnonneg := hr'.residual_nonneg (s.carrier a)
    unfold spent
    rw [hp.place_tail ha, Bool.eq_iff_iff, Bool.not_eq_true', Support.live, Bool.eq_false_iff,
      ne_eq, carries_support_iff, decide_eq_true_iff]
    omega
  have hroot : r'.spent f (p.leg s).root = true
      ↔ r'.support.terminal (p.leg s).root ≠ some s := by
    unfold spent
    rw [hp.place_root s, decide_eq_true_iff]
    exact h.excess_root_eq_zero_iff hx s
  unfold Leg.loose Leg.nodes
  rw [List.filter_append, List.filter_map, List.filter_congr hlink]
  refine congrArg (_ ++ ·) ?_
  by_cases hterminal : r'.support.terminal (p.leg s).root = some s
  · rw [if_pos hterminal, List.filter_cons_of_neg fun hs => hroot.1 hs hterminal]
    rfl
  · rw [if_neg hterminal, List.filter_cons_of_pos (hroot.2 hterminal)]
    rfl

/-- What hangs loose on the path, in the order in which its legs are walked. -/
theorem loose_eq (h : r.Moved p x r') (hx : r.Sendable p x) (hp : f.Augmenting T r.support p)
    (hr' : r'.Balanced total) :
    p.loose T r'.support = (p.source.nodes T ++ p.sink.nodes T).filter (r'.spent f) := by
  rw [List.filter_append]
  exact congrArg₂ (· ++ ·) (h.leg_loose_eq hx hp hr' .source) (h.leg_loose_eq hx hp hr' .sink)

theorem mem_loose_iff (h : r.Moved p x r') (hx : r.Sendable p x)
    (hp : f.Augmenting T r.support p) (hr' : r'.Balanced total) {v : Fin n} :
    v ∈ p.loose T r'.support ↔ v ∈ p.nodes T ∧ r'.spent f v = true := by
  rw [h.loose_eq hx hp hr', List.mem_filter, Path.nodes, List.mem_append, List.mem_append,
    List.mem_reverse]

end Moved

/-! ## The whole of it -/

/-- **Augmenting a path of a forest without orphans.** -/
theorem Balanced.augmented (h : r.Balanced total) (hw : 0 < w)
    (hp : f.Augmenting T r.support p) (hnil : f.orphans.toList = [])
    (hnone : ∀ v, f.link? v ≠ some .orphan) :
    r.Augmented T f p (p.bottleneck r) (r.send p (p.bottleneck r))
      (f.cut T (r.send p (p.bottleneck r)).support p) := by
  -- what sending the bottleneck does, and that it uses something up
  have hx := h.sendable hw hp
  have hmoved := h.moved_send hw hp hx
  have hr' := hmoved.balanced hx hp h
  have hloose {v : Fin n} := hmoved.mem_loose_iff hx hp hr' (v := v)
  have hleast := h.isLeast_bottleneck hw hp
  -- what cutting does to the line of orphans, of which there is none before
  have hlisted : (f.cut T (r.send p (p.bottleneck r)).support p).Listed none :=
    hp.listed_cut hnil hnone
  have horphans : (f.cut T (r.send p (p.bottleneck r)).support p).orphans.toList
      = (p.loose T (r.send p (p.bottleneck r)).support).reverse := by
    rw [Forest.orphans_cut, hnil, List.append_nil]
  exact
    -- the path, as the forest had it
    { side?_tail := hp.side .source
      side?_head := hp.side .sink
      bridge_pos := carries_support_iff.1 hp.carries
      climb_tail := hp.climb .source
      climb_head := hp.climb .sink
      place_source := hp.place_root .source
      place_sink := hp.place_root .sink
      map_tail_route := hp.map_tail_route
      map_head_route := hp.map_head_route
      nodup_nodes := hp.nodup_nodes
      nodup_route_edges := hp.nodup_route_edges
      -- the amount that is sent
      isLeast := hleast
      one_le := hx.pos
      -- what is left of the capacities
      residual_of_mem := fun ha => hmoved.residual_of_mem hp (Path.mem_route.1 ha)
      residual_sister_of_mem := fun ha =>
        hmoved.residual_sister_of_mem hp (Path.mem_route.1 ha)
      residual_of_not_mem := fun ha hs => by
        rw [Path.mem_route] at ha hs
        rw [residual_send hp.nodup_edges, if_neg ha, if_neg hs]
      excess_source := hmoved.source
      excess_sink := hmoved.sink
      excess_of_ne := hmoved.excess
      flow := hmoved.flow
      zero_mem := hmoved.zero_mem hp hleast.1
      -- the forest, in which only links have been cut
      label := fun v => by
        rw [Forest.label_cut]
        simp only [hloose]
      queue := Forest.queue_cut f
      time := Forest.time_cut f
      link?_eq_orphan_iff := fun {v} => by
        rw [← hloose, ← List.mem_reverse, ← horphans]
        simpa using (hlisted.mem_iff v).symm
      orphans := by rw [horphans, hmoved.loose_eq hx hp hr']
      nodup_orphans := hlisted.nodup }

end Residual

end MinCut
