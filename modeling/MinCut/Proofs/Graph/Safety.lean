import MinCut.Proofs.Arena.Building
import MinCut.Proofs.Arena.Search
import MinCut.Proofs.Graph.Acceptance
import MinCut.Proofs.Graph.Termination

/-!
# Nothing goes wrong

Over plain records that refer to each other by number, many things could go wrong in the
calls of a graph. A number could be out of range, a walk up a leg could come to a node that
is no child and no root, a distance could be counted down below zero, and a loop could go
on forever. In no history of calls does any of this happen (`Graph.answers_safe`): each
call is answered as the graph answers it, and leaves the records of the graph.

The records of a graph are given by `Graph.arena`, and each call on the records is compared with the
call on the graph. Solving is the only call that loops, and that its loops end without a failure is
known from the search. The other calls need numbers of nodes that exist, which are checked first.
The comparison also shows what a refused call leaves behind on the records, which is nothing.
-/

namespace MinCut

namespace Graph

section Asking

variable {α : Type} [Capacity α]

/-- **Telling the side of a node.** -/
theorem side_arena (g : Graph α) (events : List (Event α)) (node : Nat) :
    (g.arena events).perform (Arena.side node)
      = some (g.effect events ((·, g) <$> g.side node)) := by
  by_cases hn : node < g.nodeCount
  · -- the node exists, and whether the graph has been solved is looked at next
    refine (Arena.perform_bind_of_ok (perform_ensureNode_of_lt hn events)).trans ?_
    cases g with
    | building net =>
      rw [show (building net).side node = .error .notSolved from if_pos hn]
      rfl
    | solved net final =>
      have hnode : ((solved net final).arena events).node node
          = some (.of net.topology final.residual final.forest ⟨node, hn⟩) :=
        Arena.node_lay ((solved net final).arena events) ⟨node, hn⟩
      rw [show (solved net final).side node = .ok ((final.forest.side? ⟨node, hn⟩).getD .sink) from
        dif_pos hn]
      refine (Arena.perform_bind_of_ok (b := ()) (t := (solved net final).arena events) rfl).trans
        ?_
      refine (Arena.perform_lift_bind _ (((solved net final).arena events).node node) _).trans ?_
      rw [hnode]
      simp only [Option.bind_eq_bind, Option.bind_some, NodeState.side_of]
      cases final.forest.side? ⟨node, hn⟩ with
      | none => rfl
      | some s => cases s <;> rfl
  · -- it does not, and that is said first
    refine (Arena.perform_bind_of_error (perform_ensureNode_of_not_lt hn events)).trans ?_
    cases g with
    | building net =>
      rw [show (building net).side node = .error (.nodeOutOfRange node net.nodeCount) from
        if_neg hn]
      rfl
    | solved net final =>
      rw [show (solved net final).side node = .error (.nodeOutOfRange node net.nodeCount) from
        dif_neg hn]
      rfl

/-- **Telling the sides of nodes** one after the other, of which each may be refused. -/
theorem sides_arena (g : Graph α) (events : List (Event α)) (nodes : List Nat) :
    (g.arena events).perform (nodes.mapM fun node => Arena.attempt (Arena.side node))
      = some (.ok (nodes.map g.side), g.arena events) := by
  induction nodes with
  | nil => rfl
  | cons node nodes ih =>
    have hside : (g.arena events).perform (Arena.attempt (Arena.side node))
        = some (.ok (g.side node), g.arena events) := by
      rw [Arena.perform_attempt, side_arena]
      cases g.side node <;> rfl
    rw [List.mapM_cons, Arena.perform_bind_of_ok hside, Arena.perform_bind_of_ok ih]
    rfl

/-- **Listing the nodes on the source's side.** -/
theorem sourceCut_arena (g : Graph α) (events : List (Event α)) :
    (g.arena events).perform Arena.sourceCut
      = some (g.effect events ((·, g) <$> g.sourceCut)) := by
  cases g with
  | building net => rfl
  | solved net final =>
    have hnodes : ((solved net final).arena events).nodes.zipIdx
        = (List.finRange net.nodeCount).map fun v =>
          (.of net.topology final.residual final.forest v, v.val) := zipIdx_map_finRange _
    have hcut : (solved net final).sourceCut = .ok (((List.finRange net.nodeCount).filter fun v =>
        final.forest.side? v = some .source).map Fin.val) := rfl
    show some (Except.ok ((((solved net final).arena events).nodes.zipIdx.filter _).map Prod.snd),
      _) = _
    rw [hnodes, List.filter_map, List.map_map, hcut]
    rfl

end Asking

section Solving

variable {w : Nat}

/-- **Solving a graph under construction.** -/
theorem solve_arena {net : Network (Signed w)} (h : net.Balanced) (hw : 0 < w)
    {final : Search (Signed w) net.nodeCount net.edgeCount} (hsearch : net.search = some final)
    (events : List (Event (Signed w))) : ((building net).arena events).perform Arena.solve
      = some (.ok final.residual.flow,
        (solved net final).arena (.finished final.residual.flow final.stats
          :: (final.events ++ [.started net.nodeCount (2 * net.edgeCount)]))) := by
  let b : Arena (Signed w) := (building net).arena [.started net.nodeCount (2 * net.edgeCount)]
  have hnodes : ((building net).arena events).nodes.length = net.nodeCount :=
    length_nodes_arena _ events
  have harcs : ((building net).arena events).arcs.length = 2 * net.edgeCount :=
    length_arcs_arena _ events
  have hrun : Loop.run Arena.turn (b.laySearch net.topology (.start net.residual), none)
      = some (b.laySearch net.topology final) :=
    Arena.run_turn_lay b (Search.sound_start h.residual) hw (Search.ends_turn hsearch)
  rw [Arena.perform_solve, hnodes, harcs]
  show (Arena.plantAll (b.lay net.topology net.residual (.bare _ _)) >>= _) = _
  rw [Arena.plantAll_lay]
  show (Loop.run Arena.turn (b.laySearch net.topology (.start net.residual), none) >>= _) = _
  rw [hrun]
  rfl

end Solving

section Answering

variable {w : Nat}

variable {g : Graph (Signed w)} {past : List (Call (Signed w))}

/-- The effect of a call that leaves no events is the answer, and the arena of the graph. -/
theorem effect_call (g : Graph (Signed w)) (events : List (Event (Signed w)))
    (c : Call (Signed w)) :
    g.effect events (g.call c) = ((g.answer c).1, (g.answer c).2.arena events) := by
  unfold answer
  cases g.call c <;> rfl

/-- The call to solve a graph under construction. -/
theorem call_solve_arena {net : Network (Signed w)} (h : net.Balanced) (hw : 0 < w)
    (events : List (Event (Signed w))) : ∃ events',
      ((building net).arena events).perform (Arena.call .solve)
        = some ((building net).effect events' ((building net).call .solve)) := by
  obtain ⟨final, hsearch, -⟩ := h.search hw
  let started : Event (Signed w) := .started net.nodeCount (2 * net.edgeCount)
  let finished : Event (Signed w) := .finished final.residual.flow final.stats
  have hsolve : (building net).solve = .ok ⟨solved net final, final.residual.flow,
      started :: (finished :: final.events).reverse⟩ := by
    unfold solve
    dsimp only
    rw [hsearch]
  -- the latest event comes first in an arena, and the first one in a solution
  have hevents : (finished :: (final.events ++ [started])).reverse
      = started :: (finished :: final.events).reverse := by simp
  refine ⟨finished :: (final.events ++ [started]), ?_⟩
  rw [call, hsolve]
  refine (Arena.perform_bind_of_ok (solve_arena h hw hsearch events)).trans ?_
  exact congrArg (fun events => some (Except.ok (Answer.solution final.residual.flow events),
    (solved net final).arena (finished :: (final.events ++ [started])))) hevents

/-- **Every call has its effect**, on the arena as on the graph. Solving is the only one that
leaves events. -/
theorem call_arena (h : g.Keeps past) (hw : 0 < w) (events : List (Event (Signed w)))
    (c : Call (Signed w)) : ∃ events', (g.arena events).perform (Arena.call c)
      = some (g.effect events' (g.call c)) := by
  cases c with
  | addNodes count =>
    exact ⟨events, perform_bind_effect (addNodes_arena g events count) _⟩
  | addTerminal node sink source =>
    refine ⟨events, (perform_bind_effect (addTerminal_arena g events node sink source) _).trans ?_⟩
    rw [call]
    cases g.addTerminal node sink source <;> rfl
  | addEdge edge =>
    refine ⟨events, (perform_bind_effect (addEdge_arena g events edge) _).trans ?_⟩
    rw [call]
    cases g.addEdge edge <;> rfl
  | solve =>
    cases g with
    | building net => exact call_solve_arena h.inStage.1 hw events
    | solved net final => exact ⟨events, rfl⟩
  | side node =>
    refine ⟨events, (perform_bind_effect (side_arena g events node) _).trans ?_⟩
    rw [call]
    cases g.side node <;> rfl
  | sides =>
    -- the sides of as many nodes are asked for as there are records
    have hnodes : (g.arena events).nodes.length = g.nodeCount := length_nodes_arena g events
    refine ⟨events, (Arena.perform_bind_of_ok (sides_arena g events _)).trans ?_⟩
    rw [hnodes]
    rfl
  | sourceCut =>
    refine ⟨events, (perform_bind_effect (sourceCut_arena g events) _).trans ?_⟩
    rw [call]
    cases g.sourceCut <;> rfl
  | nodeCount =>
    exact ⟨events, congrArg (fun count => some (Except.ok (Answer.number count), g.arena events))
      (length_nodes_arena g events)⟩
  | arcCount =>
    exact ⟨events, congrArg (fun count => some (Except.ok (Answer.number count), g.arena events))
      (length_arcs_arena g events)⟩
  | flow | stats | snapshot => exact ⟨events, by cases g <;> rfl⟩

/-- **Every call is answered** as the graph answers it, and leaves the arena of the graph. -/
theorem answer_arena (h : g.Keeps past) (hw : 0 < w) (events : List (Event (Signed w)))
    (c : Call (Signed w)) : ∃ events',
      (g.arena events).answer c = some ((g.answer c).1, (g.answer c).2.arena events') := by
  obtain ⟨events', hcall⟩ := call_arena h hw events c
  exact ⟨events', hcall.trans (congrArg some (effect_call g events' c))⟩

/-- **Several calls are answered** one after the other, by the same argument. -/
theorem answers_arena (h : g.Keeps past) (hw : 0 < w) (events : List (Event (Signed w)))
    (calls : List (Call (Signed w))) : ∃ events', (g.arena events).answers calls
      = some ((g.answers calls).1, (g.answers calls).2.arena events') := by
  induction calls generalizing g past events with
  | nil => exact ⟨events, rfl⟩
  | cons c calls ih =>
    obtain ⟨events₁, hanswer⟩ := answer_arena h hw events c
    have hnext : (g.answer c).2.Keeps (past ++ g.accepted [c]) := h.answers hw [c]
    obtain ⟨events₂, hanswers⟩ := ih hnext events₁
    refine ⟨events₂, ?_⟩
    rw [Arena.answers, hanswer, answers_cons_eq]
    show (Arena.answers _ calls >>= _) = _
    rw [hanswers]
    rfl

end Answering

/-- **A history of calls that is safe on plain records**: none of them fails, the answers are those
of the graph, and at the end all that can be seen is the same. -/
def Safe {w : Nat} (calls : List (Call (Signed w))) : Prop :=
  ∃ s, (Arena.empty : Arena (Signed w)).answers calls
      = some (((empty : Graph (Signed w)).answers calls).1, s)
    ∧ s.toSnapshot = ((empty : Graph (Signed w)).answers calls).2.snapshot

/-- **Nothing goes wrong in any history of calls.** -/
theorem answers_safe {w : Nat} (hw : 0 < w) (calls : List (Call (Signed w))) : Safe calls := by
  obtain ⟨events, hanswers⟩ := answers_arena empty_keeps hw [] calls
  exact ⟨_, hanswers, rfl⟩

/-- Calls that put one node between two at the source and one at the sink, and solve the graph.
The search sends flow along two paths. The first one uses up a link, and the node below it
is adopted by another. Of the last four calls two are refused. -/
def detour : List (Call (Signed 8)) :=
  [.addNodes 4, .addTerminal 0 0 (.ofInt 5), .addTerminal 2 (.ofInt 8) 0,
    .addTerminal 3 0 (.ofInt 5), .addEdge ⟨0, 1, .ofInt 5, 0⟩, .addEdge ⟨1, 2, .ofInt 9, 0⟩,
    .addEdge ⟨3, 1, .ofInt 5, 0⟩, .solve, .side 4, .addNodes 1, .sides, .snapshot]

/-- A search with two paths. -/
theorem answers_safe_detour : 0 < 8 ∧ Safe detour := by
  have hw : 0 < 8 := by decide
  exact ⟨hw, answers_safe hw detour⟩

end Graph

end MinCut
