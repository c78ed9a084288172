import MinCut.Proofs.Residual.Balance

/-!
# The flow that has been sent

A search keeps what is left of the capacities and not what it has sent, but the
one is the other seen from where it started. What an arc has lost is what flows
over it, and what a node has lost at its terminal is what flows through it from or
to that terminal. `Residual.FeasibleFrom` says that this is a flow: it exceeds no
capacity, it runs from one terminal to the other without getting lost on the way,
and its value is the amount by which the flow counter has grown.

Sending along an augmenting path keeps all of it (`Residual.FeasibleFrom.moved`).
At a node the path passes, what comes in goes out again, so that only the two roots
see a difference, and they are those that draw on their terminals.
-/

namespace MinCut

open Finset

namespace Residual

variable {n m w : Nat} {r₀ r r' : Residual (Signed w) n m} {total x : Int}
variable {p : Path n m} {T : Topology n m} {f : Forest n m}

/-- **What is left of the capacities after a feasible flow**, of the amounts there
were before. -/
structure FeasibleFrom (T : Topology n m) (r r₀ : Residual (Signed w) n m) : Prop where
  /-- No arc carries more than its capacity. -/
  residual_nonneg (a : Arc m) : 0 ≤ (r.residual a).toInt
  /-- What an arc has lost, its sister has gained. -/
  residual_add_sister (a : Arc m) : (r.residual a).toInt + (r.residual a.sister).toInt
    = (r₀.residual a).toInt + (r₀.residual a.sister).toInt
  /-- Nothing flows from a node to itself. -/
  residual_of_loop {a : Arc m} : T.tail a = T.head a → r.residual a = r₀.residual a
  /-- No node draws more than it has at its terminal, or gives back. -/
  excess_between (v : Fin n) :
    0 ≤ (r.excess v).toInt ∧ (r.excess v).toInt ≤ (r₀.excess v).toInt
      ∨ (r₀.excess v).toInt ≤ (r.excess v).toInt ∧ (r.excess v).toInt ≤ 0
  /-- What flows out of a node over its arcs has come from its terminals. -/
  conservation (v : Fin n) :
    ((T.out v).map fun a => (r₀.residual a).toInt - (r.residual a).toInt).sum
      = (r₀.excess v).toInt - (r.excess v).toInt
  /-- The flow has been drawn from the source. -/
  flow_source : r.flow.toInt - r₀.flow.toInt
    = ∑ v, (max (r₀.excess v).toInt 0 - max (r.excess v).toInt 0)
  /-- It has been given to the sink. -/
  flow_sink : r.flow.toInt - r₀.flow.toInt
    = ∑ v, (max (-(r₀.excess v).toInt) 0 - max (-(r.excess v).toInt) 0)

/-- Before anything has been sent, the flow is nothing, and nothing is feasible. -/
theorem Balanced.feasibleFrom_self (h : r.Balanced total) (T : Topology n m) :
    r.FeasibleFrom T r where
  residual_nonneg := h.residual_nonneg
  residual_add_sister _ := rfl
  residual_of_loop _ := rfl
  excess_between v := by omega
  conservation v := by simp
  flow_source := by simp
  flow_sink := by simp

namespace Moved

/-- Sending changes nothing on an edge that is not used. -/
theorem residual_of_not_mem (h : r.Moved p x r') {a : Arc m} (ha : a ∉ p.arcs)
    (hs : a.sister ∉ p.arcs) : r'.residual a = r.residual a := by
  rw [← Signed.toInt_inj, h.residual, if_neg ha, if_neg hs]
  omega

/-- The two arcs of an edge keep their sum. -/
theorem residual_add_sister (h : r.Moved p x r') (a : Arc m) :
    (r'.residual a).toInt + (r'.residual a.sister).toInt
      = (r.residual a).toInt + (r.residual a.sister).toInt := by
  rw [h.residual, h.residual, Arc.sister_sister]
  omega

/-- **What leaves a node over its arcs** grows by what the node draws. -/
theorem sum_out (h : r.Moved p x r') (hp : f.Augmenting T r.support p) (v : Fin n) :
    ((T.out v).map fun a => (r'.residual a).toInt).sum
      = ((T.out v).map fun a => (r.residual a).toInt).sum
        - x * ((if p.source.root = v then 1 else 0) - (if p.sink.root = v then 1 else 0)) := by
  have hweight := h.sum_residual hp fun a => if T.tail a = v then 1 else 0
  have hpath : (p.arcs.map fun a =>
      (if T.tail a = v then 1 else 0) - (if T.tail a.sister = v then 1 else 0)).sum
        = (if p.source.root = v then 1 else 0) - (if p.sink.root = v then (1 : Int) else 0) :=
    hp.sum_arcs fun u => if u = v then 1 else 0
  rw [hpath] at hweight
  simpa only [T.sum_out, ite_mul, one_mul, zero_mul] using hweight

/-- **The flow counter has grown by what the terminals have lost**, for each measure of this by
which the two roots together lose the amount that is sent. What is drawn from the source is one such
measure, and what is given to the sink is another one. -/
theorem flow_of_roots (h : r.Moved p x r') (hp : f.Augmenting T r.support p) {g : Int → Int}
    (hflow : r.flow.toInt - r₀.flow.toInt
      = ∑ v, (g (r₀.excess v).toInt - g (r.excess v).toInt))
    (hroots : g (r.excess p.source.root).toInt - g ((r.excess p.source.root).toInt - x)
      + (g (r.excess p.sink.root).toInt - g ((r.excess p.sink.root).toInt + x)) = x) :
    r'.flow.toInt - r₀.flow.toInt
      = ∑ v, (g (r₀.excess v).toInt - g (r'.excess v).toInt) := by
  have hsum := h.sum_excess hp fun _ => g
  rw [sum_sub_distrib] at hflow ⊢
  rw [hsum, h.flow]
  omega

end Moved

namespace FeasibleFrom

/-- No node draws more than it had when an amount is sent. -/
theorem excess_moved (h : r.FeasibleFrom T r₀) (hm : r.Moved p x r') (hx : r.Sendable p x)
    (v : Fin n) :
    0 ≤ (r'.excess v).toInt ∧ (r'.excess v).toInt ≤ (r₀.excess v).toInt
      ∨ (r₀.excess v).toInt ≤ (r'.excess v).toInt ∧ (r'.excess v).toInt ≤ 0 := by
  have hbefore := h.excess_between v
  have hpos := hx.pos
  by_cases hsource : v = p.source.root
  · have hle := hx.le_source
    have hafter := hm.source
    rw [← hsource] at hle hafter
    omega
  · by_cases hsink : v = p.sink.root
    · have hle := hx.le_sink
      have hafter := hm.sink
      rw [← hsink] at hle hafter
      omega
    · rw [hm.excess hsource hsink]
      exact hbefore

/-- **What is drawn at the roots** is what leaves them over their arcs. -/
theorem conservation_moved (h : r.FeasibleFrom T r₀) (hm : r.Moved p x r')
    (hp : f.Augmenting T r.support p) (v : Fin n) :
    ((T.out v).map fun a => (r₀.residual a).toInt - (r'.residual a).toInt).sum
      = (r₀.excess v).toInt - (r'.excess v).toInt := by
  have hbefore := h.conservation v
  have hout := hm.sum_out hp v
  have hne := hp.root_ne
  -- the sum of the differences is the difference of the sums, of which only the second changes
  have hsplit (g : Arc m → Int) :
      ((T.out v).map fun a => (r₀.residual a).toInt - g a).sum
        = ((T.out v).map fun a => (r₀.residual a).toInt).sum - ((T.out v).map g).sum := by
    simp only [T.sum_out, ← sum_sub_distrib, ite_sub_ite, sub_self]
  rw [hsplit] at hbefore ⊢
  rw [hout]
  -- the two roots, and all other nodes
  by_cases hsource : p.source.root = v
  · have hafter := hm.source
    rw [hsource] at hafter hne
    rw [if_pos hsource, if_neg (Ne.symm hne)]
    omega
  · rw [if_neg hsource]
    by_cases hsink : p.sink.root = v
    · have hafter := hm.sink
      rw [hsink] at hafter
      rw [if_pos hsink]
      omega
    · rw [if_neg hsink, hm.excess (Ne.symm hsource) (Ne.symm hsink)]
      omega

/-- **Sending along an augmenting path** keeps the flow feasible. -/
theorem moved (h : r.FeasibleFrom T r₀) (hr : r.Balanced total) (hm : r.Moved p x r')
    (hx : r.Sendable p x) (hp : f.Augmenting T r.support p) : r'.FeasibleFrom T r₀ where
  residual_nonneg := (hm.balanced hx hp hr).residual_nonneg
  residual_add_sister a := (hm.residual_add_sister a).trans (h.residual_add_sister a)
  residual_of_loop {a} hloop := by
    -- an edge from a node to itself is not on the path
    refine (hm.residual_of_not_mem (fun ha => hp.tail_ne_head ha hloop) fun hs => ?_).trans
      (h.residual_of_loop hloop)
    refine hp.tail_ne_head hs ?_
    rw [T.tail_sister, T.head_sister, hloop]
  excess_between := h.excess_moved hm hx
  conservation := h.conservation_moved hm hp
  flow_source := by
    have hpos := hx.pos
    have hle := hx.le_source
    have hle' := hx.le_sink
    exact hm.flow_of_roots hp (g := fun e => max e 0) h.flow_source (by omega)
  flow_sink := by
    have hpos := hx.pos
    have hle := hx.le_source
    have hle' := hx.le_sink
    exact hm.flow_of_roots hp (g := fun e => max (-e) 0) h.flow_sink (by omega)

end FeasibleFrom

end Residual

end MinCut
