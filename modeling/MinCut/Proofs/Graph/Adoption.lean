import MinCut.Proofs.Forest.Nearest
import MinCut.Proofs.Forest.Pass
import MinCut.Proofs.Graph.Safety
import MinCut.Proofs.Search.Anchored

/-!
# What each adoption pass does

After an augmentation the nodes that have lost their links look for new parents. What a
search for a parent finds is what following all chains to their ends would find, although
a trace stops at the first node that the pass has stamped before. The orphan is hung from the
nearest parent, or released if there is none (`Graph.search_adopting`). Nothing is left at its
terminal for it, so that a parent is all it can hope for.

What the pass as a whole does to the trees is told node by node (`Graph.search_mending`). Over
plain records it can be seen to change nothing else. Arcs with their heads, their sisters and
what is left on them are the same afterwards, and so are the arcs that leave each node, what is
left at its terminals, the flow and the total.

A turn makes at most one pass, if its scan has found a bridge. What is claimed of passes is stated
of the amounts and the forest with which a pass begins (`Search.EachPass`), which are those that the
augmentation leaves behind (`Search.Severs`).
-/

namespace MinCut

variable {n m w : Nat} {T : Topology n m} {total : Int} {value : Finset Nat → Int}

namespace Search

variable {s : Search (Signed w) n m} {v : Fin n} {bridge : Arc m}

/-- **The augmentation of a turn ends** with amounts and a forest, and a pass over that forest
is the rest of the turn. -/
structure Severs (T : Topology n m) (s : Search (Signed w) n m) (v : Fin n) (bridge : Arc m)
    (r : Residual (Signed w) n m) (f : Forest n m) : Prop where
  /-- The walks of the augmentation end with these amounts and this forest. -/
  augments : ∃ amount, s.residual.Augments T ((scanned T v s).forest.flag v true) bridge
    (amount, r, f)
  /-- The amounts are those after the turn. -/
  residual : (turn T s).state.residual = r
  /-- The forest, when the pass is over, is the one after the turn. -/
  forest : (turn T s).state.forest = (f.adopt T r.support).forest

/-- The augmentation of a sound search ends. -/
theorem Sound.severs (h : s.Sound T total value) (hw : 0 < w) (hfinds : s.Finds T v bridge) :
    s.Severs T v bridge (Search.turn T s).state.residual (s.severed T v bridge) where
  augments := (h.loopsEnd hw hfinds).augments
  residual := rfl
  forest := by
    rw [turn_of_bridge hfinds]
    rfl

/-- **What holds of each pass** that a turn makes: of the amounts and the forest with which it
begins. -/
def EachPass (T : Topology n m) (s : Search (Signed w) n m)
    (P : Residual (Signed w) n m → Forest n m → Prop) : Prop :=
  ∀ v bridge, s.Finds T v bridge → ∃ r f, s.Severs T v bridge r f ∧ P r f

/-- **The turn makes a pass** and goes through a state with the property. -/
def SomePass (T : Topology n m) (s : Search (Signed w) n m) (P : Repair n m → Prop) : Prop :=
  ∃ v bridge r f R, s.Finds T v bridge ∧ s.Severs T v bridge r f
    ∧ Repair.Visited T r.support (.begin f) R ∧ P R

/-- What holds of the pass that begins with the forest after the augmentation, holds of each pass.
-/
theorem Sound.eachPass {P : Residual (Signed w) n m → Forest n m → Prop}
    (h : s.Sound T total value) (hw : 0 < w)
    (hP : ∀ {v bridge}, s.Finds T v bridge →
      P (Search.augment T v bridge (Search.scanned T v s)).residual (s.severed T v bridge)) :
    s.EachPass T P := by
  intro v bridge hfinds
  refine ⟨_, _, h.severs hw hfinds, ?_⟩
  rw [turn_of_bridge hfinds]
  exact hP hfinds

end Search

namespace Repair

/-- **How a state of a pass goes on**: what it finds out about chains is true, and the orphan
that it settles is hung from its nearest parent. -/
structure Adopting (T : Topology n m) (S : Support n m) (r : Repair n m) : Prop where
  /-- Every search for a distance ends. -/
  traces {f : Forest n m} {u : Fin n} : r.Asks T S f u → f.Traces T u (Forest.trace T n f u)
  /-- It finds the depth of a node whose chain reaches a terminal, -/
  depth_iff {f : Forest n m} {u : Fin n} : r.Asks T S f u →
    ∀ d, (Forest.trace T n f u).1 = some d ↔ r.forest.Depth T u d
  /-- and nothing if the chain runs into an orphan. -/
  adrift_iff {f : Forest n m} {u : Fin n} : r.Asks T S f u →
    ((Forest.trace T n f u).1 = none ↔ r.forest.Adrift T u)
  /-- The first orphan of the line is settled. -/
  outcome {u : Fin n} {side : Side} {orphans : Deque (Fin n)} :
    r.forest.orphans.popFront? = some (u, orphans) → r.forest.place u = .tree side .orphan →
      r.Outcome T S u side (round T S r).state

/-- **Each state of a pass continues in this way**, if no node with capacity left at a terminal has
lost its link. -/
theorem Visited.adopting {S : Support n m} {f : Forest n m} {current : Option (Fin n)}
    {r : Repair n m} (h : Visited T S (.begin f) r) (hf : f.Mending T S current none)
    (hanchored : f.Anchored S) : r.Adopting T S := by
  obtain ⟨hmending, hmended⟩ := h.mending hf
  exact
    { traces := fun hasks => hasks.traces hmending
      depth_iff := fun hasks => (hasks.trace_iff hmending).1
      adrift_iff := fun hasks => (hasks.trace_iff hmending).2
      outcome := fun hpop hplace =>
        round_outcome hmending hpop hplace ((hanchored.mended hmended).terminal_ne hplace _) }

end Repair

namespace Arena

/-- **The same network**: only what is noted about the trees differs. -/
structure SameNetwork (a b : Arena (Signed w)) : Prop where
  /-- The arcs lead to the same nodes, have the same sisters and as much left. -/
  arcs : b.arcs = a.arcs
  /-- The same arcs leave the nodes. -/
  leaving : b.nodes.map NodeState.arcs = a.nodes.map NodeState.arcs
  /-- The nodes have as much left at their terminals. -/
  excess : b.nodes.map NodeState.excess = a.nodes.map NodeState.excess
  /-- The flow is the same. -/
  flow : b.flow = a.flow
  /-- So is the total. -/
  total : b.total = a.total

/-- Two forests are laid out over the same network. -/
theorem sameNetwork_lay {b b' : Arena (Signed w)} (htotal : b'.total = b.total) (T : Topology n m)
    (r : Residual (Signed w) n m) (f g : Forest n m) :
    SameNetwork (b.lay T r f) (b'.lay T r g) := by
  have hnodes {β : Type} (part : NodeState (Signed w) → β)
      (hpart : ∀ v, part (.of T r g v) = part (.of T r f v)) :
      (b'.lay T r g).nodes.map part = (b.lay T r f).nodes.map part := by
    show ((List.finRange n).map _).map part = ((List.finRange n).map _).map part
    rw [List.map_map, List.map_map]
    exact List.map_congr_left fun v _ => hpart v
  exact ⟨rfl, hnodes _ fun _ => rfl, hnodes _ fun _ => rfl, rfl, htotal⟩

/-- Two forests under repair are, too. -/
theorem sameNetwork_layRepair (b : Arena (Signed w)) (T : Topology n m)
    (r : Residual (Signed w) n m) (R R' : Repair n m) :
    SameNetwork (b.layRepair T r R) (b.layRepair T r R') := by
  unfold layRepair
  exact sameNetwork_lay (by rfl) T r R.forest R'.forest

end Arena

/-- **How the passes of a turn go on**: each of their states does as it should. -/
def Search.Adopting (T : Topology n m) (s : Search (Signed w) n m) : Prop :=
  s.EachPass T fun r f =>
    ∀ R, Repair.Visited T r.support (.begin f) R → R.Adopting T r.support

/-- **What the passes of a turn come to**: the trees are mended, and over plain records the loop
ends with them and with the same network. -/
def Search.Mends (T : Topology n m) (s : Search (Signed w) n m) : Prop :=
  s.EachPass T fun r f => f.Adopts T r.support
    ∧ ∀ b : Arena (Signed w), ∃ a, Loop.run Arena.round (b.layRepair T r (.begin f)) = some a
      ∧ a = b.layRepair T r (f.adopt T r.support)
      ∧ (b.layRepair T r (.begin f)).SameNetwork a

namespace Graph

/-- **Adoption agrees with following every chain to its end**, at each state of each pass. -/
theorem search_adopting (hw : 0 < w) (calls : List (Call (Signed w)))
    (hcalls : ∀ c ∈ calls, c.builds = true) :
    Builds calls fun net => net.Throughout (Search.Adopting net.topology) := by
  refine builds_throughout hw hcalls fun hbalanced s hs => ?_
  have hsound := hs.sound hw hbalanced
  exact hsound.eachPass hw fun hfinds R hR => hR.adopting (hsound.mending hw hfinds)
    (hsound.anchored_severed hw hfinds (hs.anchored hw hbalanced))

/-- **A pass shows what it does** in the state that it has after some rounds. -/
theorem builds_somePass (hw : 0 < w) {calls : List (Call (Signed w))}
    (hcalls : ∀ c ∈ calls, c.builds = true)
    {P : (net : Network (Signed w)) → Repair net.nodeCount net.edgeCount → Prop}
    {net : Network (Signed w)} (hnet : (empty.answers calls).2 = building net)
    {s : Search (Signed w) net.nodeCount net.edgeCount}
    (hs : Search.Visited net.topology net.residual s) {v : Fin net.nodeCount}
    {bridge : Arc net.edgeCount} (hfinds : s.Finds net.topology v bridge)
    {R : Repair net.nodeCount net.edgeCount}
    (hR : Repair.Visited net.topology (Search.turn net.topology s).state.residual.support
      (.begin (s.severed net.topology v bridge)) R) (hP : P net R) :
    Builds calls fun net => net.Sometimes fun s => s.SomePass net.topology (P net) := by
  obtain ⟨net', hnet', hbalanced, _⟩ := empty_answers hw hcalls
  obtain rfl := building.inj (hnet.symm.trans hnet')
  have hsound := hs.sound hw hbalanced.residual
  exact ⟨net, hnet, s, hs, v, bridge, _, _, R, hfinds, hsound.severs hw hfinds, hR, hP⟩

/-- The first pass in the search on `detour` releases the root of its path and hangs the next
node from another parent. -/
theorem builds_detour_adopted : Builds (detour.take 7) fun net =>
    net.Sometimes fun s => s.SomePass net.topology fun R =>
      R.adopted = 1 ∧ R.expelled.map Fin.val = [0] := by
  have hnet : (empty.answers (detour.take 7)).2
      = building (empty.answers (detour.take 7)).2.network := rfl
  have hfinds : (Search.turn (empty.answers (detour.take 7)).2.network.topology
        (.start (empty.answers (detour.take 7)).2.network.residual)).state.Finds
      (empty.answers (detour.take 7)).2.network.topology ⟨2, by decide⟩
      ⟨⟨1, by decide⟩, .forward⟩ :=
    ⟨by decide +kernel, by decide +kernel⟩
  exact builds_somePass (by decide) (by decide) hnet (.turn .start) hfinds
    (.round (.round .begin)) (by decide +kernel)

/-- The calls of `detour` that come before the search. It sends flow along two paths, and its first
pass goes through a state in which one orphan has been adopted and the root has been released. -/
theorem search_adopting_detour : (0 < 8 ∧ ∀ c ∈ detour.take 7, c.builds = true)
    ∧ Builds (detour.take 7) fun net => net.Throughout (Search.Adopting net.topology)
      ∧ net.Sometimes fun s => s.SomePass net.topology fun R =>
        R.adopted = 1 ∧ R.expelled.map Fin.val = [0] := by
  have hw : 0 < 8 := by decide
  have hcalls : ∀ c ∈ detour.take 7, c.builds = true := by decide
  exact ⟨⟨hw, hcalls⟩, (search_adopting hw (detour.take 7) hcalls).and builds_detour_adopted⟩

/-- **Each pass leaves every node in its tree or free**, and the network as it is. -/
theorem search_mending (hw : 0 < w) (calls : List (Call (Signed w)))
    (hcalls : ∀ c ∈ calls, c.builds = true) :
    Builds calls fun net => net.Throughout (Search.Mends net.topology) := by
  refine builds_throughout hw hcalls fun hbalanced s hs => ?_
  have hsound := hs.sound hw hbalanced
  refine hsound.eachPass hw fun hfinds => ?_
  have hmending := hsound.mending hw hfinds
  exact ⟨hmending.adopts, fun b => ⟨_, Arena.run_round_lay b hmending, rfl,
    b.sameNetwork_layRepair _ _ _ _⟩⟩

/-- The same calls. The pass leaves one node in its tree by another parent, and one free. -/
theorem search_mending_detour : (0 < 8 ∧ ∀ c ∈ detour.take 7, c.builds = true)
    ∧ Builds (detour.take 7) fun net => net.Throughout (Search.Mends net.topology)
      ∧ net.Sometimes fun s => s.SomePass net.topology fun R =>
        R.adopted = 1 ∧ R.expelled.map Fin.val = [0] := by
  have hw : 0 < 8 := by decide
  have hcalls : ∀ c ∈ detour.take 7, c.builds = true := by decide
  exact ⟨⟨hw, hcalls⟩, (search_mending hw (detour.take 7) hcalls).and builds_detour_adopted⟩

end Graph

end MinCut
