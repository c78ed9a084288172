import MinCut.Proofs.Search.Turn

/-!
# What a whole search guarantees

What holds between two turns holds of every state that a search goes through
(`Search.Visited.sound`), and since each turn brings it closer to its end, the number
of turns set aside for it is always enough (`Search.run_spec`). The amounts only
change by what is sent along augmenting paths, so what that keeps holds of them all
along (`Search.Visited.residual_induction`).

At the end nothing is left across the cut that the source's tree makes, so that
the flow is the value of a smallest cut, and the smallest cuts are those across
which nothing is left (`Search.Finished.isMinCut_iff`).
-/

namespace MinCut

open Finset

/-- **A smallest cut** of `n` nodes, among all sets of nodes. -/
structure IsMinCut (n : Nat) (value : Finset Nat → Int) (X : Finset Nat) : Prop where
  /-- It is a set of nodes. -/
  subset : X ⊆ range n
  /-- No other one has a smaller value. -/
  value_le {Y : Finset Nat} : Y ⊆ range n → value X ≤ value Y

namespace Search

/-- **The states of a search**, at the head of its loop and at its end. -/
inductive Visited {α : Type} [Capacity α] {n m : Nat} (T : Topology n m)
    (r : Residual α n m) : Search α n m → Prop
  /-- The search begins with the residual capacities given. -/
  | start : Visited T r (.start r)
  /-- It goes on in turns. -/
  | turn {s : Search α n m} (h : Visited T r s) : Visited T r (turn T s).state

variable {n m w : Nat} {T : Topology n m} {total : Int} {value : Finset Nat → Int}
variable {r : Residual (Signed w) n m} {s : Search (Signed w) n m}

/-! ## Along the way -/

/-- Before the first turn. -/
theorem sound_start (hr : r.Balanced total) :
    (start r).Sound T total fun X => r.flow.toInt + r.crossing T X where
  balanced := hr
  forest := Forest.initial_sound T r.support
  flow_add_crossing _ := rfl

/-- A turn keeps what holds of a search. -/
theorem Sound.turn (h : s.Sound T total value) (hw : 0 < w) :
    (Search.turn T s).state.Sound T total value := by
  cases ht : Search.turn T s with
  | done s' => exact (h.done ht).1
  | more s' => exact (h.more hw ht).1

/-- **What holds of every state of a search.** -/
theorem Visited.sound (h : Visited T r s) (hw : 0 < w) (hr : r.Balanced total) :
    s.Sound T total fun X => r.flow.toInt + r.crossing T X := by
  induction h with
  | start => exact sound_start hr
  | turn _ ih => exact ih.turn hw

/-- **What sending along augmenting paths keeps** holds of the amounts at every state
of a search. -/
theorem Visited.residual_induction {motive : Residual (Signed w) n m → Prop}
    (h : Visited T r s) (hw : 0 < w) (hr : r.Balanced total) (start : motive r)
    (step : ∀ {r₁ r₂ : Residual (Signed w) n m} {f : Forest n m} {p : Path n m} {x : Int},
      r₁.Balanced total → f.Augmenting T r₁.support p → r₁.Sendable p x → r₁.Moved p x r₂ →
      motive r₁ → motive r₂) :
    motive s.residual := by
  induction h with
  | start => exact start
  | turn hs ih =>
    have hsound := hs.sound hw hr
    rcases hsound.turn_residual hw with hsame | ⟨f, p, x, hp, hx, hmoved⟩
    · rwa [hsame]
    · exact step hsound.balanced hp hx hmoved ih

/-! ## At the end -/

/-- **What holds of a search that is over.** There is nothing left to grow into for either tree,
since no node is active. -/
structure Finished (T : Topology n m) (total : Int) (value : Finset Nat → Int)
    (s : Search (Signed w) n m) : Prop extends s.Sound T total value where
  /-- No node is current. -/
  current_eq_none : s.current = none
  /-- No node waits. -/
  queue_eq_nil : s.forest.queue.toList = []

/-- The trees of a search that is over, with no node being current. -/
theorem Finished.forest_sound (h : s.Finished T total value) :
    s.forest.Sound T s.residual.support none none := by
  have hf := h.forest
  rwa [h.current_eq_none] at hf

/-- The turn with which a search is over. -/
theorem Sound.finished {s' : Search (Signed w) n m} (h : s.Sound T total value)
    (hs' : Search.turn T s = .done s') : s'.Finished T total value := by
  obtain ⟨hsound, hcurrent, hqueue⟩ := h.done hs'
  exact ⟨hsound, hcurrent, hqueue⟩

/-- **A search ends** within as many turns as its potential tells. -/
theorem Sound.run (h : s.Sound T total value) (hw : 0 < w) (hs : Visited T r s) {turns : Nat}
    (hturns : s.potential < turns) :
    ∃ final, Search.run T turns s = some final ∧ Visited T r final
      ∧ final.Finished T total value := by
  induction turns generalizing s with
  | zero => exact absurd hturns (Nat.not_lt_zero _)
  | succ turns ih =>
    have hnext := hs.turn
    unfold Search.run
    -- either the search is over or its potential has fallen below the turns left
    cases ht : Search.turn T s with
    | done s' =>
      rw [ht] at hnext
      exact ⟨s', rfl, hnext, h.finished ht⟩
    | more s' =>
      rw [ht] at hnext
      obtain ⟨hsound, hpotential⟩ := h.more hw ht
      exact ih hsound hnext (by omega)

/-- **The turns set aside for a search are enough.** -/
theorem run_spec (hr : r.Balanced total) (hw : 0 < w) :
    ∃ final, run T r.turns (start r) = some final ∧ Visited T r final
      ∧ final.Finished T total fun X => r.flow.toInt + r.crossing T X := by
  refine (sound_start hr).run hw .start ?_
  have hpending := (start r).forest.card_pending_le
  have hsupply : (start r).residual.supply = r.supply := rfl
  unfold potential Residual.turns
  rw [hsupply, Nat.add_mul, Nat.one_mul, Nat.mul_add, Nat.mul_one]
  omega

namespace Finished

variable {X : Finset Nat}

/-- No cut has a smaller value than what flows. -/
theorem flow_le (h : s.Finished T total value) (X : Finset Nat) :
    s.residual.flow.toInt ≤ value X := by
  rw [← h.flow_add_crossing X]
  exact le_add_of_nonneg_right (h.balanced.crossing_nonneg T X)

/-- **The flow is the value of the cuts across which nothing is left.** -/
theorem value_eq_flow_iff (h : s.Finished T total value) :
    value X = s.residual.flow.toInt ↔ s.residual.support.Closed T X := by
  rw [← h.flow_add_crossing X, ← h.balanced.crossing_eq_zero_iff, add_eq_left]

/-- The source's tree makes a cut of the value of the flow. -/
theorem value_region_source (h : s.Finished T total value) :
    value (s.forest.region .source) = s.residual.flow.toInt :=
  h.value_eq_flow_iff.2 (h.forest_sound.closed_region_source h.queue_eq_nil)

/-- **The smallest cuts are those across which nothing is left.** -/
theorem isMinCut_iff (h : s.Finished T total value) :
    IsMinCut n value X ↔ X ⊆ range n ∧ s.residual.support.Closed T X := by
  constructor
  · intro hX
    refine ⟨hX.subset, h.value_eq_flow_iff.1 (le_antisymm ?_ (h.flow_le X))⟩
    rw [← h.value_region_source]
    exact hX.value_le (s.forest.region_subset .source)
  · rintro ⟨hsubset, hclosed⟩
    refine ⟨hsubset, fun {Y} _ => ?_⟩
    rw [h.value_eq_flow_iff.2 hclosed]
    exact h.flow_le Y

/-- **The source's tree makes the least of the smallest cuts.** -/
theorem isMinCut_region_source (h : s.Finished T total value) :
    IsMinCut n value (s.forest.region .source)
      ∧ ∀ X, IsMinCut n value X → s.forest.region .source ⊆ X :=
  ⟨h.isMinCut_iff.2 ⟨s.forest.region_subset .source,
      h.forest_sound.closed_region_source h.queue_eq_nil⟩,
    fun _ hX => h.forest_sound.region_source_subset (h.isMinCut_iff.1 hX).2⟩

/-- **The nodes outside the sink's tree make the greatest.** -/
theorem isMinCut_compl_sink (h : s.Finished T total value) :
    IsMinCut n value (range n \ s.forest.region .sink)
      ∧ ∀ X, IsMinCut n value X → X ⊆ range n \ s.forest.region .sink :=
  ⟨h.isMinCut_iff.2 ⟨sdiff_subset, h.forest_sound.closed_compl_sink h.queue_eq_nil⟩,
    fun _ hX => h.forest_sound.subset_compl_sink (h.isMinCut_iff.1 hX).2 hX.subset⟩

end Finished

end Search

end MinCut
