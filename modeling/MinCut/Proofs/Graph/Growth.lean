import MinCut.Proofs.Arena.Growth
import MinCut.Proofs.Forest.Scanning
import MinCut.Proofs.Graph.Adoption
import MinCut.Proofs.Graph.Trees

/-!
# What each scan does

In each turn of a search a node is selected and its arcs are followed. Which bridge this gives,
which nodes join the tree and in what order they are queued can be told from the amounts and the
forest before the scan (`Graph.search_growing`). A node that is queued when it joins, because it
was in a tree before and has lost its place there, keeps its turn.

The queue lists the nodes with a flag, so that a scan needs only to look at the flag. The trees
are rooted before the scan and after it. Over plain records it can be seen that the scan changes
nothing but the records of the nodes that join, and the queue.
-/

namespace MinCut

variable {n m w : Nat} {T : Topology n m} {total : Int} {value : Finset Nat → Int}

namespace Residual

/-- **The tree of a side could grow along an arc**: something is left in its way. -/
def opens (r : Residual (Signed w) n m) (side : Side) (a : Arc m) : Bool :=
  decide (0 < (r.residual (side.outward a)).toInt)

/-- It is the liveness of the link that would lead back. -/
theorem live_support_eq_opens (r : Residual (Signed w) n m) (side : Side) :
    (fun a : Arc m => r.support.live side a.sister) = r.opens side := by
  funext a
  rw [Support.live, Side.carrier_sister_eq_outward, opens, Bool.eq_iff_iff, decide_eq_true_iff]
  exact carries_support_iff

end Residual

namespace Search

variable {s : Search (Signed w) n m} {v : Fin n} {side : Side}

/-- The forest after the scan of a node. -/
def grown (T : Topology n m) (s : Search (Signed w) n m) (v : Fin n) : Forest n m :=
  (s.selected.grow T s.residual.support v).2

/-- The bridge that the scan of a node finds. -/
def bridge? (T : Topology n m) (s : Search (Signed w) n m) (v : Fin n) : Option (Arc m) :=
  (s.selected.grow T s.residual.support v).1

/-- **What the scan of a node does**, told from the amounts and the forest before. -/
structure Growing (T : Topology n m) (s : Search (Signed w) n m) (v : Fin n) (side : Side) :
    Prop where
  /-- The node is in a tree. -/
  side?_eq : s.selected.side? v = some side
  /-- Its arcs are followed up to the first bridge. -/
  grows : s.selected.Grows T (s.residual.opens side) side (s.selected.label v).stamp
    (s.selected.label v).distance (T.out v) (s.bridge? T v) (s.grown T v)
  /-- Just the free nodes that they lead to join the tree. -/
  joins_iff (u : Fin n) : s.selected.side? u = none ∧ (s.grown T v).side? u ≠ none
    ↔ s.selected.side? u = none ∧ ∃ a ∈ s.selected.passed T (s.residual.opens side) side (T.out v),
      s.residual.opens side a = true ∧ T.head a = u
  /-- The flag tells which nodes have a place in the queue before the scan. -/
  active_iff (u : Fin n) : (s.selected.label u).active = true ↔ u ∈ s.selected.queue.toList
  /-- So it does afterwards. -/
  active_grown_iff (u : Fin n) :
    ((s.grown T v).label u).active = true ↔ u ∈ (s.grown T v).queue.toList
  /-- The trees are rooted before the scan. -/
  rooted : Rooted T { s with forest := s.selected }
  /-- They are rooted afterwards. -/
  rooted_grown : Rooted T { s with forest := s.grown T v }

/-- The same scan over plain records. -/
structure GrowingArena (T : Topology n m) (s : Search (Signed w) n m) (v : Fin n)
    (b : Arena (Signed w)) : Prop where
  /-- The node is the one that is selected. -/
  select_eq : (b.lay T s.residual s.forest).select (s.current.map Fin.val)
    = some (some v.val, b.lay T s.residual s.selected)
  /-- Scanning it finds the same bridge and leaves the records of the grown forest. -/
  grow_eq : (b.lay T s.residual s.selected).grow v
    = some ((s.bridge? T v).map Arc.number, b.lay T s.residual (s.grown T v))
  /-- The network stays as it is. -/
  sameNetwork : (b.lay T s.residual s.selected).SameNetwork (b.lay T s.residual (s.grown T v))

/-- **The scan over plain records is the scan over the trees**, whatever the node is. -/
theorem growingArena (hselect : (s.forest.select s.current).1 = some v) (b : Arena (Signed w)) :
    s.GrowingArena T v b where
  select_eq := by
    rw [Arena.select_lay, Prod.map, hselect]
    rfl
  grow_eq := Arena.grow_lay b s.selected v
  sameNetwork := Arena.sameNetwork_lay rfl T s.residual _ _

/-- **The scan of a turn.** -/
theorem Sound.growing (h : s.Sound T total value)
    (hselect : (s.forest.select s.current).1 = some v) : ∃ side, s.Growing T v side := by
  have hg := (Forest.select_spec h.forest).1 v hselect
  obtain ⟨side, hside⟩ := Option.ne_none_iff_exists'.1 hg.side?_ne_none
  have hgrown := (Forest.grow_spec hg.sound hside).1.sound
  have hgrows := Forest.grows_grow (T := T) (S := s.residual.support) hside
  rw [s.residual.live_support_eq_opens] at hgrows
  have hwaiting {f : Forest n m} (hf : f.Waiting none) (u : Fin n) :
      (f.label u).active = true ↔ u ∈ f.queue.toList := by
    rw [hf.active_iff, or_iff_left (Option.some_ne_none u).symm]
  exact ⟨side,
    { side?_eq := hside
      grows := hgrows
      joins_iff := fun _ => hgrows.joins_iff
      active_iff := hwaiting hg.sound.waiting
      active_grown_iff := hwaiting hgrown.waiting
      rooted := .of_sound hg.sound
      rooted_grown := .of_sound hgrown }⟩

end Search

/-- **The scan of the next turn**, if a node is left to be scanned, over the trees and over plain
records. -/
def Search.Scans (T : Topology n m) (s : Search (Signed w) n m) : Prop :=
  ∀ v, (s.forest.select s.current).1 = some v →
    (∃ side, s.Growing T v side) ∧ ∀ b : Arena (Signed w), s.GrowingArena T v b

namespace Graph

/-- **What a scan does can be told from the state before it**, in each turn of a search. -/
theorem search_growing (hw : 0 < w) (calls : List (Call (Signed w)))
    (hcalls : ∀ c ∈ calls, c.builds = true) :
    Builds calls fun net => net.Throughout (Search.Scans net.topology) :=
  builds_throughout hw hcalls fun hbalanced _ hs _ hselect =>
    ⟨(hs.sound hw hbalanced).growing hselect, Search.growingArena hselect⟩

/-- The calls of `detour` that come before the search, in which there is a state whose scan finds a
bridge. -/
theorem search_growing_detour : (0 < 8 ∧ ∀ c ∈ detour.take 7, c.builds = true)
    ∧ Builds (detour.take 7) fun net => net.Throughout (Search.Scans net.topology)
      ∧ net.Sometimes fun s => ∃ v bridge, s.Finds net.topology v bridge := by
  have hw : 0 < 8 := by decide
  have hcalls : ∀ c ∈ detour.take 7, c.builds = true := by decide
  have hfinds := builds_detour_adopted.imp fun net ⟨s, hs, v, bridge, _, _, _, hfinds, _⟩ =>
    (⟨s, hs, v, bridge, hfinds⟩ : net.Sometimes fun s => ∃ v bridge, s.Finds net.topology v bridge)
  exact ⟨⟨hw, hcalls⟩, (search_growing hw (detour.take 7) hcalls).and hfinds⟩

end Graph

end MinCut
