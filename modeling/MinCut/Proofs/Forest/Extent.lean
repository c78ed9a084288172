import MinCut.Proofs.Forest.Growth
import Mathlib.Data.Finset.Image
import Mathlib.Logic.Relation

/-!
# How far the trees reach

When no node waits to be scanned, the trees cannot grow any more, and each of them
holds exactly the nodes that could have been grown into from its terminal
(`Forest.Sound.side?_eq_iff`). The nodes of the source's tree are then a set
that nothing can flow out of, and so are all nodes outside the sink's tree. Every
other such set lies between these two (`Forest.Sound.region_source_subset`,
`Forest.Sound.subset_compl_sink`), which is why the cut that the search reports is
the least of the smallest cuts.

A tree is compared with reachability one way by its links, which lead up to the terminal, and the
other way by quiet: where no node is active, the neighbours of a tree's nodes into which it could
grow are nodes of the tree themselves. The rest follows for sets in general and has nothing to do
with trees.
-/

namespace MinCut

open Finset

variable {n m : Nat}

namespace Support

/-- Flow can run from one node to another over an arc. -/
def Step (T : Topology n m) (S : Support n m) (u v : Fin n) : Prop :=
  ∃ a, T.tail a = u ∧ T.head a = v ∧ S.carries a = true

/-- **Flow can run from one node to another** over some arcs. -/
abbrev Reaches (T : Topology n m) (S : Support n m) : Fin n → Fin n → Prop :=
  Relation.ReflTransGen (S.Step T)

/-- The tree of a side can grow from one node to another. -/
def Grows (T : Topology n m) (S : Support n m) (s : Side) (u v : Fin n) : Prop :=
  ∃ a, T.tail a = u ∧ T.head a = v ∧ S.live s a.sister = true

/-- **A set of nodes that nothing can flow out of**, with the source on its side
and the sink on the other. -/
structure Closed (T : Topology n m) (S : Support n m) (X : Finset Nat) : Prop where
  /-- It has all nodes that have something left at the source. -/
  source_mem {v : Fin n} : S.terminal v = some .source → v.val ∈ X
  /-- It has none of those that have something left at the sink. -/
  sink_not_mem {v : Fin n} : S.terminal v = some .sink → v.val ∉ X
  /-- No arc that has something left leads out of it. -/
  head_mem {a : Arc m} : S.carries a = true → (T.tail a).val ∈ X → (T.head a).val ∈ X

variable {T : Topology n m} {S : Support n m} {u v : Fin n}

/-- The source's tree grows along the flow. -/
theorem grows_source : Relation.ReflTransGen (S.Grows T .source) u v ↔ S.Reaches T u v := by
  have hstep : S.Grows T .source = S.Step T := by
    funext u v
    unfold Grows Step
    simp only [live_source, Arc.sister_sister]
  rw [hstep]

/-- The sink's tree grows against the flow. -/
theorem grows_sink : Relation.ReflTransGen (S.Grows T .sink) u v ↔ S.Reaches T v u := by
  have hstep : S.Grows T .sink = Function.swap (S.Step T) := by
    funext u v
    refine propext ⟨?_, ?_⟩
    · rintro ⟨a, htail, hhead, hlive⟩
      exact ⟨a.sister, hhead, (T.head_sister a).trans htail, hlive⟩
    · rintro ⟨a, htail, hhead, hcarries⟩
      refine ⟨a.sister, hhead, (T.head_sister a).trans htail, ?_⟩
      rwa [live_sink, Arc.sister_sister]
  rw [hstep, Relation.reflTransGen_swap]

/-- Flow does not run out of a closed set. -/
theorem Closed.mem_of_reaches {X : Finset Nat} (hX : S.Closed T X) (hu : u.val ∈ X)
    (h : S.Reaches T u v) : v.val ∈ X := by
  induction h with
  | refl => exact hu
  | tail _ hstep ih =>
    obtain ⟨a, rfl, rfl, hcarries⟩ := hstep
    exact hX.head_mem hcarries ih

end Support

namespace Forest

variable {T : Topology n m} {S : Support n m} {f : Forest n m} {v : Fin n} {s : Side}

/-- The nodes in the tree of a side. -/
def region (f : Forest n m) (s : Side) : Finset Nat :=
  (univ.filter fun v => f.side? v = some s).image Fin.val

/-- A node is in the region of a side if it is in its tree. -/
theorem val_mem_region : v.val ∈ f.region s ↔ f.side? v = some s := by
  unfold region
  rw [mem_image]
  constructor
  · rintro ⟨u, hu, huv⟩
    obtain rfl := Fin.ext huv
    exact (mem_filter.1 hu).2
  · intro hv
    exact ⟨v, mem_filter.2 ⟨mem_univ v, hv⟩, rfl⟩

/-- A region is a set of node numbers. -/
theorem region_subset (f : Forest n m) (s : Side) : f.region s ⊆ range n := by
  intro k hk
  obtain ⟨v, _, rfl⟩ := mem_image.1 hk
  exact mem_range.2 v.isLt

/-- A set of nodes contains the tree of a side if it contains each of its
nodes. -/
theorem region_subset_iff {X : Finset Nat} :
    f.region s ⊆ X ↔ ∀ v, f.side? v = some s → v.val ∈ X := by
  constructor
  · exact fun h v hv => h (val_mem_region.2 hv)
  · intro h k hk
    obtain ⟨v, hv, rfl⟩ := mem_image.1 hk
    exact h v (mem_filter.1 hv).2

/-! ## Trees and reachability -/

/-- **Every node of a tree has been grown into** from its terminal. -/
theorem Linked.grows_of_depth (hf : f.Linked T S) {d : Nat} (hd : f.Depth T v d)
    (hv : f.side? v = some s) :
    ∃ u, S.terminal u = some s ∧ Relation.ReflTransGen (S.Grows T s) u v := by
  -- up the chain, whose links are arcs along which the tree has grown
  induction hd with
  | @root v hl =>
    obtain ⟨r, hp⟩ := exists_place_of_link? hl
    obtain rfl : r = s := Option.some.inj ((side?_of_place hp).symm.trans hv)
    exact ⟨v, hf.terminal hp, .refl⟩
  | @child v a d hl _ ih =>
    obtain ⟨r, hp⟩ := exists_place_of_link? hl
    obtain rfl : r = s := Option.some.inj ((side?_of_place hp).symm.trans hv)
    obtain ⟨u, hu, hchain⟩ := ih (hf.head hp)
    refine ⟨u, hu, hchain.tail ⟨a.sister, rfl, ?_, ?_⟩⟩
    · rw [T.head_sister, hf.tail hp]
    · rw [Arc.sister_sister]
      exact hf.live hp

variable (hf : f.Sound T S none none) (hqueue : f.queue.toList = [])

include hf

/-- In a sound forest this is so for every node of a tree, since each of them has a depth. -/
theorem Sound.exists_grows (hv : f.side? v = some s) :
    ∃ u, S.terminal u = some s ∧ Relation.ReflTransGen (S.Grows T s) u v := by
  obtain ⟨d, hd⟩ := hf.exists_depth (by rw [hv]; exact Option.some_ne_none s)
  exact hf.linked.grows_of_depth hd hv

include hqueue

/-- **Where no node waits, no tree can grow.** -/
theorem Sound.side?_head {a : Arc m} (ha : f.side? (T.tail a) = some s)
    (hlive : S.live s a.sister = true) : f.side? (T.head a) = some s := by
  refine hf.quiet ha (Bool.eq_false_iff.2 fun hactive => ?_) (by simp) rfl hlive
  rcases (hf.waiting.active_iff _).1 hactive with hmem | hcurrent
  · rw [hqueue] at hmem
    exact List.not_mem_nil hmem
  · exact absurd hcurrent (by simp)

/-- **A tree holds the nodes that can be grown into** from its terminal. -/
theorem Sound.side?_eq_iff : f.side? v = some s
    ↔ ∃ u, S.terminal u = some s ∧ Relation.ReflTransGen (S.Grows T s) u v := by
  constructor
  · exact hf.exists_grows
  · rintro ⟨u, hu, hchain⟩
    induction hchain with
    | refl => exact hf.claimed hu
    | tail _ hstep ih =>
      obtain ⟨a, rfl, rfl, hlive⟩ := hstep
      exact hf.side?_head hqueue ih hlive

/-- **The source's tree holds what flow can reach from the source.** -/
theorem Sound.side?_eq_source_iff : f.side? v = some .source
    ↔ ∃ u, S.terminal u = some .source ∧ S.Reaches T u v := by
  rw [hf.side?_eq_iff hqueue]
  exact exists_congr fun u => and_congr_right fun _ => Support.grows_source

/-- **The sink's tree holds what flow can reach the sink from.** -/
theorem Sound.side?_eq_sink_iff : f.side? v = some .sink
    ↔ ∃ u, S.terminal u = some .sink ∧ S.Reaches T v u := by
  rw [hf.side?_eq_iff hqueue]
  exact exists_congr fun u => and_congr_right fun _ => Support.grows_sink

/-! ## The extreme closed sets -/

/-- Nothing flows out of the source's tree. -/
theorem Sound.closed_region_source : S.Closed T (f.region .source) where
  source_mem hv := val_mem_region.2 (hf.claimed hv)
  sink_not_mem hv hmem := by
    have hside := (hf.claimed hv).symm.trans (val_mem_region.1 hmem)
    exact absurd hside (by simp)
  head_mem {a} hcarries htail := by
    refine val_mem_region.2 (hf.side?_head hqueue (val_mem_region.1 htail) ?_)
    rwa [S.live_source, Arc.sister_sister]

/-- Nothing flows into the sink's tree. -/
theorem Sound.closed_compl_sink : S.Closed T (range n \ f.region .sink) where
  source_mem {v} hv := by
    rw [mem_sdiff, val_mem_region, hf.claimed hv]
    exact ⟨mem_range.2 v.isLt, by simp⟩
  sink_not_mem {v} hv := by
    rw [mem_sdiff, val_mem_region, hf.claimed hv]
    exact fun h => h.2 rfl
  head_mem {a} hcarries htail := by
    rw [mem_sdiff, val_mem_region] at htail ⊢
    refine ⟨mem_range.2 (T.head a).isLt, fun hhead => htail.2 ?_⟩
    rw [← T.head_sister a]
    refine hf.side?_head hqueue (a := a.sister) hhead ?_
    rwa [S.live_sink, Arc.sister_sister]

omit hqueue

/-- **The source's tree is in every closed set.** -/
theorem Sound.region_source_subset {X : Finset Nat} (hX : S.Closed T X) :
    f.region .source ⊆ X := by
  refine region_subset_iff.2 fun v hv => ?_
  obtain ⟨u, hu, hchain⟩ := hf.exists_grows hv
  exact hX.mem_of_reaches (hX.source_mem hu) (Support.grows_source.1 hchain)

/-- **No closed set meets the sink's tree.** -/
theorem Sound.subset_compl_sink {X : Finset Nat} (hX : S.Closed T X) (hn : X ⊆ range n) :
    X ⊆ range n \ f.region .sink := by
  intro k hk
  refine mem_sdiff.2 ⟨hn hk, fun hsink => ?_⟩
  obtain ⟨v, hv, rfl⟩ := mem_image.1 hsink
  obtain ⟨u, hu, hchain⟩ := hf.exists_grows (mem_filter.1 hv).2
  exact hX.sink_not_mem hu (hX.mem_of_reaches hk (Support.grows_sink.1 hchain))

end Forest

end MinCut
