import MinCut.Proofs.Forest.Cascade
import MinCut.Proofs.Graph.Adoption
import MinCut.Proofs.Graph.Trees

/-!
# The line of orphans between two rounds

A pass settles one orphan after the other, and every orphan that it releases may leave new ones
behind. Between two rounds the trees are in pieces, and the line lists the nodes at which they
have come apart: each orphan is listed once and is still in its tree. All other links hold. They
lead to nodes of the same tree, flow can run over them, and from every node of a tree they go up
to a root or an orphan (`Repair.Dangling`).

It does not matter in what order the orphans are settled. No node hangs from a free one, since a
node that is released has been relieved of its children first. They are those nodes that hang
from it before the round, however many arcs lead to each of them (`Graph.search_cascading`).
-/

namespace MinCut

variable {n m w : Nat} {T : Topology n m}

namespace Repair

variable {r : Residual (Signed w) n m} {R : Repair n m} {current : Option (Fin n)}

/-- **The trees between two rounds of a pass**, for given amounts. -/
structure Dangling (T : Topology n m) (r : Residual (Signed w) n m) (R : Repair n m) : Prop where
  /-- No orphan is listed twice. -/
  nodup : R.forest.orphans.toList.Nodup
  /-- The line lists just the orphans. -/
  mem_orphans_iff (v : Fin n) :
    v ∈ R.forest.orphans.toList ↔ R.forest.link? v = some .orphan
  /-- They are still in their trees. -/
  side?_of_mem {v : Fin n} : v ∈ R.forest.orphans.toList → R.forest.side? v ≠ none
  /-- The arc of a link starts at the node that hangs from it. -/
  tail {v : Fin n} {s : Side} {a : Arc m} : R.forest.place v = .tree s (.arc a) → T.tail a = v
  /-- It leads to a node of the same tree, -/
  head {v : Fin n} {s : Side} {a : Arc m} : R.forest.place v = .tree s (.arc a) →
    R.forest.side? (T.head a) = some s
  /-- and never to a free one. -/
  head_ne_free {v : Fin n} {a : Arc m} : R.forest.link? v = some (.arc a) →
    R.forest.place (T.head a) ≠ .free
  /-- Flow can run down a link of the source's tree. -/
  live_source {v : Fin n} {a : Arc m} : R.forest.place v = .tree .source (.arc a) →
    0 < (r.residual a.sister).toInt
  /-- Flow can run up a link of the sink's tree. -/
  live_sink {v : Fin n} {a : Arc m} : R.forest.place v = .tree .sink (.arc a) →
    0 < (r.residual a).toInt
  /-- From a node of a tree the links lead to a root or an orphan, in finitely many steps. -/
  exists_top {v : Fin n} : R.forest.side? v ≠ none →
    ∃ u, Relation.ReflTransGen (R.forest.Child T) v u
      ∧ (R.forest.link? u = some .terminal ∨ R.forest.link? u = some .orphan)

/-- They are like that wherever the invariant holds. -/
theorem dangling (hR : R.forest.Mending T r.support current none) : R.Dangling T r := by
  have hmem (v : Fin n) : v ∈ R.forest.orphans.toList ↔ R.forest.link? v = some .orphan :=
    (hR.listed.mem_iff v).trans (and_iff_left (Option.some_ne_none v).symm)
  exact
    { nodup := hR.listed.nodup
      mem_orphans_iff := hmem
      side?_of_mem := fun {v} hv => Forest.side?_ne_none_of_link? ((hmem v).1 hv)
      tail := hR.linked.tail
      head := hR.linked.head
      head_ne_free := fun {v a} hv hfree =>
        hR.linked.head_ne_of_free (Forest.place_eq_free_iff.1 hfree) hv rfl
      live_source := fun hv => by
        rw [← Residual.carries_support_iff, ← Support.live_source]
        exact hR.linked.live hv
      live_sink := fun hv => by
        rw [← Residual.carries_support_iff, ← Support.live_sink]
        exact hR.linked.live hv
      exists_top := fun hv => (hR.linked.ends hv).exists_top }

/-- **How a state of a pass continues**: whatever is first in the line is an orphan, and settling it
adds to the line just those nodes that hang from it, if it is released. -/
structure Cascading (T : Topology n m) (r : Residual (Signed w) n m) (R : Repair n m) :
    Prop where
  /-- The trees are in pieces at the orphans only. -/
  dangling : R.Dangling T r
  /-- The first of the line is an orphan. -/
  link?_of_first {v : Fin n} {orphans : Deque (Fin n)} :
    R.forest.orphans.popFront? = some (v, orphans) → R.forest.link? v = some .orphan
  /-- Settling it does to the line what it should. -/
  relined {v : Fin n} {orphans : Deque (Fin n)} :
    R.forest.orphans.popFront? = some (v, orphans) →
      Relined T v { R.forest with orphans } (round T r.support R).state.forest

/-- **Each state of a pass continues in this way.** -/
theorem Visited.cascading {f : Forest n m} (h : Visited T r.support (.begin f) R)
    (hf : f.Mending T r.support current none) : R.Cascading T r := by
  have hmending := (h.mending hf).1
  exact ⟨dangling hmending, fun hpop => (hmending.pop hpop).1, fun hpop =>
    round_relined hmending hpop⟩

end Repair

/-- **How the passes of a turn go on**: at each of their states the trees hang together but for
the orphans. -/
def Search.Cascading (T : Topology n m) (s : Search (Signed w) n m) : Prop :=
  s.EachPass T fun r f => ∀ R, Repair.Visited T r.support (.begin f) R → R.Cascading T r

namespace Graph

/-- **The line lists the orphans, and all other links hold**, at every state of each pass. -/
theorem search_cascading (hw : 0 < w) (calls : List (Call (Signed w)))
    (hcalls : ∀ c ∈ calls, c.builds = true) :
    Builds calls fun net => net.Throughout (Search.Cascading net.topology) := by
  refine builds_throughout hw hcalls fun hbalanced s hs => ?_
  have hsound := hs.sound hw hbalanced
  exact hsound.eachPass hw fun hfinds R hR => hR.cascading (hsound.mending hw hfinds)

/-- Five nodes in a row, the second and the third of which are joined by two edges. The first
path uses up the link of the second, which is released then, and its one child after it. -/
def twins : List (Call (Signed 8)) :=
  [.addNodes 5, .addTerminal 0 0 (.ofInt 5), .addTerminal 4 (.ofInt 9) 0,
    .addEdge ⟨0, 1, .ofInt 2, 0⟩, .addEdge ⟨1, 2, .ofInt 3, 0⟩, .addEdge ⟨1, 2, .ofInt 4, 0⟩,
    .addEdge ⟨2, 3, .ofInt 9, 0⟩, .addEdge ⟨3, 4, .ofInt 9, 0⟩]

/-- The second node is released in the first round, and its child is listed once. -/
theorem builds_twins_expelled : Builds twins fun net =>
    net.Sometimes fun s => s.SomePass net.topology fun R =>
      R.expelled.map Fin.val = [1] ∧ R.forest.orphans.toList.map Fin.val = [2] := by
  have hnet : (empty.answers twins).2 = building (empty.answers twins).2.network := rfl
  have hfinds : (Search.turn (empty.answers twins).2.network.topology
        (Search.turn (empty.answers twins).2.network.topology
          (Search.turn (empty.answers twins).2.network.topology
            (.start (empty.answers twins).2.network.residual)).state).state).state.Finds
      (empty.answers twins).2.network.topology ⟨3, by decide⟩ ⟨⟨3, by decide⟩, .forward⟩ :=
    ⟨by decide +kernel, by decide +kernel⟩
  exact builds_somePass (by decide) (by decide) hnet (.turn (.turn (.turn .start))) hfinds
    (.round .begin) (by decide +kernel)

/-- A node with two arcs to its child is released, and its child is listed once. -/
theorem search_cascading_twins : (0 < 8 ∧ ∀ c ∈ twins, c.builds = true)
    ∧ Builds twins fun net => net.Throughout (Search.Cascading net.topology)
      ∧ net.Sometimes fun s => s.SomePass net.topology fun R =>
        R.expelled.map Fin.val = [1] ∧ R.forest.orphans.toList.map Fin.val = [2] := by
  have hw : 0 < 8 := by decide
  have hcalls : ∀ c ∈ twins, c.builds = true := by decide
  exact ⟨⟨hw, hcalls⟩, (search_cascading hw twins hcalls).and builds_twins_expelled⟩

end Graph

end MinCut
