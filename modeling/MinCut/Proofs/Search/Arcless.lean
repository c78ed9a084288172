import MinCut.Graph
import MinCut.Proofs.Forest.Queueing
import MinCut.Proofs.Search.Turn

/-!
# Searches without arcs

What is known of the end of a search rests on exact arithmetic, which floating-point amounts do
not have. Where there are no arcs it does not matter how the amounts behave. A scan finds
nothing then, so that no amount is ever changed and no node is queued again, and each turn takes at
least one node off the queue. There are no more turns than nodes, and one in which the queue
turns out to be empty (`Network.exists_search_of_no_edges`).
-/

namespace MinCut

variable {α : Type} [Capacity α] {n m : Nat} {T : Topology n m}

/-- Selecting a node when none is current takes one off the queue at least. -/
theorem Forest.length_queue_select_lt {f : Forest n m} {v : Fin n}
    (h : (f.select none).1 = some v) : (f.select none).2.queue.length < f.queue.length := by
  obtain ⟨off, hpolled⟩ := f.exists_polled_select none
  have hmem : v ∈ off := (hpolled.mem_or_current h).resolve_right (by simp)
  have hqueue := congrArg List.length hpolled.queue_eq
  have hoff := List.length_pos_of_mem hmem
  rw [List.length_append, ← Deque.length_eq, ← Deque.length_eq] at hqueue
  omega

/-- The scan of a node that no arc leaves finds nothing and changes nothing. -/
theorem Forest.grow_of_out_eq_nil {S : Support n m} {v : Fin n} (h : T.out v = [])
    (f : Forest n m) : f.grow T S v = (none, f) := by
  unfold grow
  rw [h]
  split <;> rfl

namespace Search

/-- **A search without arcs ends** when its queue is empty. -/
theorem exists_run_of_out_eq_nil (hT : ∀ v, T.out v = []) {turns : Nat} {s : Search α n m}
    (hcurrent : s.current = none) (hturns : s.forest.queue.length < turns) :
    ∃ final, run T turns s = some final := by
  induction turns generalizing s with
  | zero => exact absurd hturns (Nat.not_lt_zero _)
  | succ turns ih =>
    unfold run
    cases hselect : (s.forest.select s.current).1 with
    | none =>
      rw [turn_of_exhausted hselect]
      exact ⟨_, rfl⟩
    | some v =>
      have hgrow : s.selected.grow T s.residual.support v = (none, s.selected) :=
        Forest.grow_of_out_eq_nil (hT v) s.selected
      rw [turn_of_no_bridge hselect (congrArg Prod.fst hgrow)]
      refine ih (s := scanned T v s) rfl ?_
      -- the node that is scanned has been taken off the queue
      have hqueue : (scanned T v s).forest.queue = (s.forest.select s.current).2.queue :=
        congrArg (fun r : Option (Arc m) × Forest n m => r.2.queue) hgrow
      rw [hqueue]
      rw [hcurrent] at hselect ⊢
      have hlt := Forest.length_queue_select_lt hselect
      omega

end Search

/-- **The search on a network without edges** comes to its end, whatever its amounts are. -/
theorem Network.exists_search_of_no_edges {net : Network α} (h : net.edgeCount = 0) :
    ∃ final, net.search = some final := by
  refine Search.exists_run_of_out_eq_nil (fun v => ?_) rfl ?_
  · refine List.eq_nil_iff_forall_not_mem.2 fun a _ => ?_
    have := a.edge_lt
    omega
  · have hqueue : (Forest.initial net.residual.support).queue.length ≤ net.nodeCount := by
      rw [Deque.length_eq, Forest.initial, Deque.toList_ofList]
      exact (List.length_filter_le _ _).trans List.length_finRange.le
    have hle : net.nodeCount ≤ (net.residual.supply + 1) * net.nodeCount :=
      Nat.le_mul_of_pos_left _ (Nat.succ_pos _)
    show (Forest.initial net.residual.support).queue.length < _
    unfold Residual.turns
    omega

end MinCut
