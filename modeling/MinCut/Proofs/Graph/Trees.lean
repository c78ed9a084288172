import MinCut.Proofs.Graph.Optimality

/-!
# The trees over a whole search

Between any two turns of a search, and at its end, every node of a tree hangs from
the terminal of its side by links that flow can still run over
(`Search.Rooted`), and a node that neither waits to be scanned nor has just
given a path has nothing to grow into (`Search.Quiet`). The first is what
makes every path found an augmenting path. The second is why the search may stop
once no node waits: then nothing is left that leads out of the source's tree, and
nothing that leads into the sink's (`Search.Exhausted`).
-/

namespace MinCut

variable {n m w : Nat} {T : Topology n m} {total : Int} {value : Finset Nat → Int}
variable {s : Search (Signed w) n m}

namespace Search

/-- **Every node of a tree hangs from its terminal**, by links that hold. -/
structure Rooted (T : Topology n m) (s : Search (Signed w) n m) : Prop where
  /-- The free nodes are those without a link. -/
  link?_eq_none_iff (v : Fin n) : s.forest.link? v = none ↔ s.forest.side? v = none
  /-- No node has lost its link. -/
  link?_ne_orphan (v : Fin n) : s.forest.link? v ≠ some .orphan
  /-- No node waits for adoption. -/
  orphans_eq_nil : s.forest.orphans.toList = []
  /-- A root of the source's tree has capacity left at the source. -/
  terminal_source {v : Fin n} : s.forest.place v = .tree .source .terminal →
    0 < (s.residual.excess v).toInt
  /-- A root of the sink's tree has it at the sink. -/
  terminal_sink {v : Fin n} : s.forest.place v = .tree .sink .terminal →
    (s.residual.excess v).toInt < 0
  /-- The arc of a link starts at the node that hangs from it. -/
  tail {v : Fin n} {side : Side} {a : Arc m} : s.forest.place v = .tree side (.arc a) →
    T.tail a = v
  /-- It leads to a node of the same tree. -/
  head {v : Fin n} {side : Side} {a : Arc m} : s.forest.place v = .tree side (.arc a) →
    s.forest.side? (T.head a) = some side
  /-- Flow can run down a link of the source's tree. -/
  live_source {v : Fin n} {a : Arc m} : s.forest.place v = .tree .source (.arc a) →
    0 < (s.residual.residual a.sister).toInt
  /-- Flow can run up a link of the sink's tree. -/
  live_sink {v : Fin n} {a : Arc m} : s.forest.place v = .tree .sink (.arc a) →
    0 < (s.residual.residual a).toInt
  /-- The links from a node of a tree lead to a terminal in finitely many steps. -/
  exists_depth {v : Fin n} : s.forest.side? v ≠ none → ∃ d, s.forest.Depth T v d

/-- **A node that does not wait has nothing to grow into**, the current node
excepted. -/
structure Quiet (T : Topology n m) (s : Search (Signed w) n m) : Prop where
  /-- In the source's tree, what flow can run to over an arc is in the tree. -/
  source {v : Fin n} {a : Arc m} : s.forest.side? v = some .source →
    v ∉ s.forest.queue.toList → s.current ≠ some v → T.tail a = v →
    0 < (s.residual.residual a).toInt → s.forest.side? (T.head a) = some .source
  /-- In the sink's tree, what flow can come from over an arc is in the tree. -/
  sink {v : Fin n} {a : Arc m} : s.forest.side? v = some .sink →
    v ∉ s.forest.queue.toList → s.current ≠ some v → T.tail a = v →
    0 < (s.residual.residual a.sister).toInt → s.forest.side? (T.head a) = some .sink

/-- It does wherever the forest is sound, also while a node is being scanned. -/
theorem Rooted.of_sound {current busy : Option (Fin n)}
    (h : s.forest.Sound T s.residual.support current busy) : s.Rooted T where
  link?_eq_none_iff _ := Forest.link?_eq_none_iff
  link?_ne_orphan := h.link?_ne_orphan
  orphans_eq_nil := h.orphans_eq_nil
  terminal_source hv := by
    rw [← Residual.terminal_support_source_iff]
    exact h.linked.terminal hv
  terminal_sink hv := by
    rw [← Residual.terminal_support_sink_iff]
    exact h.linked.terminal hv
  tail hv := h.linked.tail hv
  head hv := h.linked.head hv
  live_source hv := by
    rw [← Residual.carries_support_iff, ← Support.live_source]
    exact h.linked.live hv
  live_sink hv := by
    rw [← Residual.carries_support_iff, ← Support.live_sink]
    exact h.linked.live hv
  exists_depth hv := h.exists_depth hv

/-- So it is at the head of each turn. -/
theorem Sound.rooted (h : s.Sound T total value) : s.Rooted T := .of_sound h.forest

/-- A node that neither is queued nor current is not active. -/
theorem Sound.active_eq_false (h : s.Sound T total value) {v : Fin n}
    (hqueue : v ∉ s.forest.queue.toList) (hcurrent : s.current ≠ some v) :
    (s.forest.label v).active = false := by
  rw [Bool.eq_false_iff]
  intro hactive
  rcases (h.forest.waiting.active_iff v).1 hactive with hmem | hv
  · exact hqueue hmem
  · exact hcurrent hv

/-- A sound search is quiet, as its queue and its current node are the active ones. -/
theorem Sound.quiet (h : s.Sound T total value) : s.Quiet T where
  source {v a} hv hqueue hcurrent htail hpos := by
    refine h.forest.quiet hv (h.active_eq_false hqueue hcurrent) (by simp) htail ?_
    rw [Support.live_source, Arc.sister_sister]
    exact Residual.carries_support_iff.2 hpos
  sink {v a} hv hqueue hcurrent htail hpos := by
    refine h.forest.quiet hv (h.active_eq_false hqueue hcurrent) (by simp) htail ?_
    rw [Support.live_sink]
    exact Residual.carries_support_iff.2 hpos

/-- **There is nothing left to grow into**, for either tree. -/
structure Exhausted (T : Topology n m) (s : Search (Signed w) n m) : Prop where
  /-- Nothing is left that leads out of the source's tree. -/
  source {a : Arc m} : 0 < (s.residual.residual a).toInt →
    s.forest.side? (T.tail a) = some .source → s.forest.side? (T.head a) = some .source
  /-- Nothing is left that leads into the sink's tree. -/
  sink {a : Arc m} : 0 < (s.residual.residual a).toInt →
    s.forest.side? (T.head a) = some .sink → s.forest.side? (T.tail a) = some .sink

/-- When a search is over no node waits, and none has just given a path. -/
theorem Finished.exhausted (h : s.Finished T total value) : s.Exhausted T := by
  have hquiet := h.toSound.quiet
  have hqueue (v : Fin n) : v ∉ s.forest.queue.toList := by
    rw [h.queue_eq_nil]
    exact List.not_mem_nil
  have hcurrent (v : Fin n) : s.current ≠ some v := by
    rw [h.current_eq_none]
    exact (Option.some_ne_none v).symm
  refine ⟨fun ha htail => hquiet.source htail (hqueue _) (hcurrent _) rfl ha,
    fun {a} ha hhead => ?_⟩
  rw [← T.head_sister a]
  refine hquiet.sink hhead (hqueue _) (hcurrent _) rfl ?_
  rwa [Arc.sister_sister]

end Search

/-- **The search on a network is quiet** all along, and exhausted at its end. -/
structure Network.KeepsQuiet (net : Network (Signed w)) : Prop where
  /-- It is quiet at each state. -/
  visited : ∀ s, Search.Visited net.topology net.residual s → s.Quiet net.topology
  /-- It comes to an end, and then the trees cannot grow. -/
  ends : ∃ final, net.search = some final ∧ final.Exhausted net.topology

namespace Graph

/-- **Every node of a tree hangs from its terminal at every state of a search.** -/
theorem search_rooted (hw : 0 < w) (calls : List (Call (Signed w)))
    (hcalls : ∀ c ∈ calls, c.builds = true) :
    Builds calls fun net => net.Throughout (Search.Rooted net.topology) :=
  builds_throughout hw hcalls fun hbalanced _ hs => (hs.sound hw hbalanced).rooted

/-- Three nodes in a row. -/
theorem search_rooted_row : (0 < 8 ∧ ∀ c ∈ row, c.builds = true)
    ∧ Builds row fun net => net.Throughout (Search.Rooted net.topology) := by
  have hw : 0 < 8 := by decide
  have hcalls : ∀ c ∈ row, c.builds = true := by decide
  exact ⟨⟨hw, hcalls⟩, search_rooted hw row hcalls⟩

/-- **No chance to grow is ever lost**, and at the end there is none. -/
theorem search_quiet (hw : 0 < w) (calls : List (Call (Signed w)))
    (hcalls : ∀ c ∈ calls, c.builds = true) : Builds calls Network.KeepsQuiet := by
  obtain ⟨net, hanswers, hbalanced, _⟩ := empty_answers hw hcalls
  obtain ⟨final, hsearch, _, hfinished⟩ := hbalanced.search hw
  exact ⟨net, hanswers, fun s hs => (hs.sound hw hbalanced.residual).quiet, final, hsearch,
    hfinished.exhausted⟩

/-- Three nodes in a row. -/
theorem search_quiet_row : (0 < 8 ∧ ∀ c ∈ row, c.builds = true)
    ∧ Builds row Network.KeepsQuiet := by
  have hw : 0 < 8 := by decide
  have hcalls : ∀ c ∈ row, c.builds = true := by decide
  exact ⟨⟨hw, hcalls⟩, search_quiet hw row hcalls⟩

end Graph

end MinCut
