import MinCut.Proofs.Forest.Extent
import MinCut.Proofs.Residual.Balance

/-!
# Cuts

A set of nodes cuts a network: flow has to pass from the set to the rest on its
way from the source to the sink. `Residual.crossing` adds up what is left across the
cut, at the terminals and on the arcs. An augmenting path crosses a cut once more
than it comes back, so what it sends is what the cut loses
(`Residual.Moved.crossing`), and the flow with what is left across a cut is the
same number at all times. The trees tell when nothing is left across a cut
(`Residual.crossing_eq_zero_iff`), and a cut that has nothing left is a smallest
one.
-/

namespace MinCut

open Finset

variable {n m w : Nat}

/-- What a node with a signed amount has left across a cut: toward the sink if it
is inside, toward the source if it is outside. -/
def nodeAcross (X : Finset Nat) (node : Nat) (excess : Int) : Int :=
  if node ∈ X then max (-excess) 0 else max excess 0

/-- This is never negative. -/
theorem nodeAcross_nonneg (X : Finset Nat) (node : Nat) (excess : Int) :
    0 ≤ nodeAcross X node excess := by
  unfold nodeAcross
  split <;> exact le_max_right _ _

/-- When a node has nothing left across a cut. -/
theorem nodeAcross_eq_zero_iff {X : Finset Nat} {node : Nat} {excess : Int} :
    nodeAcross X node excess = 0 ↔ (0 < excess → node ∈ X) ∧ (excess < 0 → node ∉ X) := by
  unfold nodeAcross
  split
  · rename_i hmem
    simp [hmem]
  · rename_i hnot
    simp [hnot]

namespace Residual

variable {r r' : Residual (Signed w) n m} {total x : Int} {p : Path n m}
variable {T : Topology n m} {f : Forest n m}

/-- One for the arcs that lead out of a set of nodes. -/
def leads (T : Topology n m) (X : Finset Nat) (a : Arc m) : Int :=
  if (T.tail a).val ∈ X ∧ (T.head a).val ∉ X then 1 else 0

/-- Something is left on an arc from one node to another. -/
def Runs (T : Topology n m) (r : Residual (Signed w) n m) (u v : Fin n) : Prop :=
  ∃ a, T.tail a = u ∧ T.head a = v ∧ 0 < (r.residual a).toInt

/-- Flow runs where something is left. -/
theorem step_support (T : Topology n m) (r : Residual (Signed w) n m) :
    r.support.Step T = r.Runs T := by
  funext u v
  unfold Support.Step Runs
  simp only [carries_support_iff]

/-- **What is left across a cut.** -/
def crossing (T : Topology n m) (r : Residual (Signed w) n m) (X : Finset Nat) : Int :=
  ∑ v : Fin n, nodeAcross X v (r.excess v).toInt + ∑ a, leads T X a * (r.residual a).toInt

/-- No arc has less than nothing left across a cut. -/
theorem Balanced.leads_mul_nonneg (h : r.Balanced total) (T : Topology n m) (X : Finset Nat)
    (a : Arc m) : 0 ≤ leads T X a * (r.residual a).toInt := by
  unfold leads
  split
  · rw [one_mul]
    exact h.residual_nonneg a
  · rw [zero_mul]

/-- No cut has less than nothing left. -/
theorem Balanced.crossing_nonneg (h : r.Balanced total) (T : Topology n m) (X : Finset Nat) :
    0 ≤ r.crossing T X :=
  Int.add_nonneg (sum_nonneg fun v _ => nodeAcross_nonneg X v _)
    (sum_nonneg fun a _ => h.leads_mul_nonneg T X a)

/-- When nothing is left on an arc that leads out of a set. -/
theorem Balanced.leads_mul_eq_zero_iff (h : r.Balanced total) {X : Finset Nat} {a : Arc m} :
    leads T X a * (r.residual a).toInt = 0
      ↔ (0 < (r.residual a).toInt → (T.tail a).val ∈ X → (T.head a).val ∈ X) := by
  have hnonneg := h.residual_nonneg a
  unfold leads
  split
  · rename_i hout
    rw [one_mul]
    constructor
    · intro hzero hpos
      omega
    · intro hin
      by_contra hne
      exact hout.2 (hin (by omega) hout.1)
  · rename_i hout
    rw [zero_mul]
    refine ⟨fun _ _ htail => ?_, fun _ => rfl⟩
    by_contra hhead
    exact hout ⟨htail, hhead⟩

/-- **When nothing is left across a cut**: if the set is closed, which means that no node at the
sink is in it, all nodes at the source are, and nothing is left on any arc that leads out. -/
theorem Balanced.crossing_eq_zero_iff (h : r.Balanced total) {X : Finset Nat} :
    r.crossing T X = 0 ↔ r.support.Closed T X := by
  have hnodes : 0 ≤ ∑ v : Fin n, nodeAcross X v (r.excess v).toInt :=
    sum_nonneg fun v _ => nodeAcross_nonneg X v _
  have harcs : 0 ≤ ∑ a, leads T X a * (r.residual a).toInt :=
    sum_nonneg fun a _ => h.leads_mul_nonneg T X a
  have hsplit : r.crossing T X = 0 ↔ (∀ v : Fin n, nodeAcross X v (r.excess v).toInt = 0)
      ∧ ∀ a, leads T X a * (r.residual a).toInt = 0 := by
    unfold crossing
    rw [add_eq_zero_iff_of_nonneg hnodes harcs,
      sum_eq_zero_iff_of_nonneg fun v _ => nodeAcross_nonneg X v.val _,
      sum_eq_zero_iff_of_nonneg fun a _ => h.leads_mul_nonneg T X a]
    simp
  simp only [hsplit, nodeAcross_eq_zero_iff, h.leads_mul_eq_zero_iff,
    ← terminal_support_source_iff, ← terminal_support_sink_iff, ← carries_support_iff]
  constructor
  · rintro ⟨hnode, harc⟩
    exact ⟨fun hv => (hnode _).1 hv, fun hv => (hnode _).2 hv, fun ha => harc _ ha⟩
  · intro hX
    exact ⟨fun v => ⟨hX.source_mem, hX.sink_not_mem⟩, fun a => hX.head_mem⟩

/-- An arc and its sister lead out of a set together as much as their ends differ. -/
theorem leads_sub_sister (T : Topology n m) (X : Finset Nat) (a : Arc m) :
    leads T X a - leads T X a.sister
      = (if (T.tail a).val ∈ X then 1 else 0) - (if (T.head a).val ∈ X then 1 else 0) := by
  unfold leads
  rw [T.tail_sister, T.head_sister]
  by_cases htail : (T.tail a).val ∈ X <;> by_cases hhead : (T.head a).val ∈ X <;>
    simp [htail, hhead]

/-- **What is sent along a path, each cut loses.** A path from the source to the sink crosses a cut
once more than it comes back, wherever its roots are, if what they have at their terminals is
counted as crossing too. -/
theorem Moved.crossing (h : r.Moved p x r') (hx : r.Sendable p x)
    (hp : f.Augmenting T r.support p) (X : Finset Nat) :
    r'.crossing T X = r.crossing T X - x := by
  have hpos := hx.pos
  have hle := hx.le_source
  have hle' := hx.le_sink
  have harcs := h.sum_residual hp (leads T X)
  -- along the path, what leads out of the set and what leads back cancel, but for its ends
  have hpath := hp.sum_arcs fun v => if v.val ∈ X then 1 else 0
  simp only [leads_sub_sister] at harcs
  rw [hpath] at harcs
  have hnodes := h.sum_excess hp fun v => nodeAcross X v
  -- a root on its own terminal's side loses nothing across the cut
  have hsource : nodeAcross X p.source.root ((r.excess p.source.root).toInt - x)
        - nodeAcross X p.source.root (r.excess p.source.root).toInt
      = x * ((if p.source.root.val ∈ X then 1 else 0) - 1) := by
    unfold nodeAcross
    split <;> omega
  have hsink : nodeAcross X p.sink.root ((r.excess p.sink.root).toInt + x)
        - nodeAcross X p.sink.root (r.excess p.sink.root).toInt
      = -x * (if p.sink.root.val ∈ X then 1 else 0) := by
    unfold nodeAcross
    split <;> omega
  rw [Residual.crossing, Residual.crossing, hnodes, harcs, hsource, hsink]
  ring

end Residual

end MinCut
