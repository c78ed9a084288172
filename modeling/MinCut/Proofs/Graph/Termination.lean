import MinCut.Proofs.Forest.Loops
import MinCut.Proofs.Graph.Optimality
import MinCut.Proofs.Residual.Walk

/-!
# Every loop ends

Solving a graph is a loop of turns, and a turn has loops within. That the first one ends
is a matter of amounts: each augmentation takes at least one unit from what the source
can supply, and between two of them no node is scanned twice for nothing. That those
within end is a matter of the trees, at every state that a search goes through: the walks up
the legs of a path and up the chain of a node come to an end since all chains do, and each
round of the adoption takes a node out of the trees or an orphan off its line
(`Search.LoopsEnd`).

Here all of them are loops in their own right (`Loop.Ends`), so that nothing is said of
a bound on the number of turns or of links. What they end with is what the search goes
on with.
-/

namespace MinCut

variable {n m w : Nat} {T : Topology n m} {total : Int} {value : Finset Nat → Int}

namespace Search

variable {s final : Search (Signed w) n m} {v : Fin n} {bridge : Arc m}

/-- **The loops of a turn that has found a bridge end**, with the search after the turn:
those of the augmentation with a forest in which nodes have been cut off, and those of the
adoption from there on. -/
structure LoopsEnd (T : Topology n m) (s : Search (Signed w) n m) (v : Fin n) (bridge : Arc m)
    (cut : Forest n m) : Prop where
  /-- The walks up both legs of the path end, when it is measured and when it is sent. -/
  augments : ∃ amount, s.residual.Augments T ((scanned T v s).forest.flag v true) bridge
    (amount, (turn T s).state.residual, cut)
  /-- The loop over the orphans ends. -/
  repairs : ∃ r, Loop.Ends (fun r => (Repair.round T (turn T s).state.residual.support r).toSum)
    (.begin cut) r ∧ (turn T s).state.forest = r.forest
  /-- Every search for a distance ends that one of its rounds begins. -/
  traces {r : Repair n m} {f : Forest n m} {u : Fin n} :
    Repair.Visited T (turn T s).state.residual.support (.begin cut) r →
    r.Asks T (turn T s).state.residual.support f u → f.Traces T u (Forest.trace T n f u)

/-- **So they do** wherever the search is sound. -/
theorem Sound.loopsEnd (h : s.Sound T total value) (hw : 0 < w) (hfinds : s.Finds T v bridge) :
    s.LoopsEnd T v bridge (s.severed T v bridge) := by
  have hp := (h.moved hw hfinds).1
  have hmending := h.mending hw hfinds
  have hturn : (Search.turn T s).state
      = Search.augment T v bridge (Search.scanned T v s) :=
    congrArg Turn.state (turn_of_bridge hfinds)
  refine ⟨?_, ?_, ?_⟩
  · rw [hturn]
    exact ⟨_, Residual.augments (hp.of_place fun u => Forest.place_flag _ v u true) s.residual⟩
  · rw [hturn]
    exact ⟨_, Repair.ends_round T _ _, rfl⟩
  · rw [hturn]
    exact fun hr hasks => hasks.traces (hr.mending hmending).1

/-- **A search that ends within a bound ends as a loop.** -/
theorem ends_turn {turns : Nat} (h : run T turns s = some final) :
    Loop.Ends (fun s => (turn T s).toSum) s final := by
  induction turns generalizing s with
  | zero => cases h
  | succ turns ih =>
    unfold run at h
    cases hturn : turn T s with
    | done s' =>
      rw [hturn] at h
      obtain rfl := Option.some.inj h
      exact .last (by rw [hturn]; rfl)
    | more s' =>
      rw [hturn] at h
      exact .next (by rw [hturn]; rfl) (ih h)

end Search

/-- **Solving a network ends**, as do the loops on the way: that over the turns, those that look
for a node to scan, and those of each turn that finds a bridge. -/
structure Network.Terminates (net : Network (Signed w)) (solution : Solution (Signed w))
    (final : Search (Signed w) net.nodeCount net.edgeCount) : Prop where
  /-- There is no fault. -/
  solve : (Graph.building net).solve = .ok solution
  /-- The solved graph holds the last state of the search. -/
  graph : solution.graph = .solved net final
  /-- The loop over the turns ends with it. -/
  turns : Loop.Ends (fun s => (Search.turn net.topology s).toSum) (.start net.residual) final
  /-- Looking for a node to scan ends, from any forest. -/
  polls : ∀ f : Forest net.nodeCount net.edgeCount, Loop.Ends Forest.poll f f.nextActive
  /-- Each turn that finds a bridge ends its loops. -/
  loops : ∀ s, Search.Visited net.topology net.residual s →
    ∀ v bridge, s.Finds net.topology v bridge → ∃ cut, s.LoopsEnd net.topology v bridge cut

namespace Graph

/-- **Solving a graph ends**, without a fault, and so does every loop on the way. -/
theorem solve_terminates (hw : 0 < w) (calls : List (Call (Signed w)))
    (hcalls : ∀ c ∈ calls, c.builds = true) :
    Builds calls fun net => ∃ solution final, net.Terminates solution final := by
  obtain ⟨net, hanswers, hbalanced, _⟩ := empty_answers hw hcalls
  obtain ⟨final, hsearch, _, _⟩ := hbalanced.search hw
  obtain ⟨solution, hsolve, hgraph, _⟩ := solve_building hsearch
  exact ⟨net, hanswers, solution, final, hsolve, hgraph, Search.ends_turn hsearch,
    Forest.ends_poll, fun s hs v bridge hfinds =>
      ⟨_, (hs.sound hw hbalanced.residual).loopsEnd hw hfinds⟩⟩

/-- The second turn of the search on `row` finds a path. -/
theorem builds_row_found : Builds row fun net =>
    net.Sometimes fun s => ∃ v bridge, s.Finds net.topology v bridge :=
  ⟨(empty.answers row).2.network, rfl, _, .turn .start, ⟨2, by decide⟩, ⟨⟨1, by decide⟩, .forward⟩,
    by decide +kernel, by decide +kernel⟩

/-- Three nodes in a row. The search on them finds a path. -/
theorem solve_terminates_row : (0 < 8 ∧ ∀ c ∈ row, c.builds = true)
    ∧ Builds row fun net => (∃ solution final, net.Terminates solution final)
      ∧ net.Sometimes fun s => ∃ v bridge, s.Finds net.topology v bridge := by
  have hw : 0 < 8 := by decide
  have hcalls : ∀ c ∈ row, c.builds = true := by decide
  exact ⟨⟨hw, hcalls⟩, (solve_terminates hw row hcalls).and builds_row_found⟩

end Graph

end MinCut
