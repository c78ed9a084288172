import MinCut.Proofs.Capacity.Recorded
import MinCut.Proofs.Residual.Balance

/-!
# Augmenting without overflow

An augmentation changes the sign of one word, and then takes from one word and adds
to another over and over: at the two arcs of each edge of the path, at its two roots,
and at the flow. All this is on the record of an augmentation (`Residual.augmenting`), and
none of these operations overflows (`Residual.Balanced.exact_augmenting`).

Between two of them the amounts do not add up to the total, since an amount that has
been taken from an arc has not reached the flow yet. What saves every single operation
is local: the two arcs of an edge never have more than the total between them, and no
other arc of the path is on that edge (`Residual.Spares`).
-/

namespace MinCut

variable {n m w : Nat}

namespace Residual

variable {r : Residual (Signed w) n m} {x : Signed w} {a b : Arc m} {v : Fin n} {s : Side}
variable {p : Path n m} {leg : Leg n m}

/-! ## How many operations -/

section Count

variable {α : Type} [Capacity α]

/-- A leg takes two operations for each of its links and one at its root. -/
theorem length_operations_sendingLeg (r : Residual α n m) (s : Side) (leg : Leg n m) (x : α) :
    (r.sendingLeg s leg x).operations.length = 2 * leg.links.length + 1 := by
  have hpush (r : Residual α n m) (a : Arc m) :
      (r.pushing (s.carrier a) x).operations.length = 2 := rfl
  rw [sendingLeg, Recorded.length_operations_bind, Recorded.length_operations_foldlM hpush]
  cases s <;> rfl

/-- **An augmentation executes two operations for each arc** of the path, two at its roots, one
for the flow, and one to find its bottleneck. -/
theorem length_operations_augmenting (r : Residual α n m) (p : Path n m) :
    (r.augmenting p).operations.length = 2 * p.arcs.length + 4 := by
  have harcs : p.arcs.length = p.source.links.length + p.sink.links.length + 1 := by
    simp [Path.arcs]
  have hpush : (r.pushing p.bridge (p.bottleneck r)).operations.length = 2 := rfl
  have hmeasure : (p.measuring r).operations.length = 1 := rfl
  have hcredit (r : Residual α n m) (x : α) : (r.crediting x).operations.length = 1 := rfl
  rw [augmenting, Recorded.length_operations_bind, Recorded.length_operations_bind, sending,
    Recorded.length_operations_bind, Recorded.length_operations_bind,
    Recorded.length_operations_bind, Path.value_measuring, hpush, hmeasure, hcredit,
    length_operations_sendingLeg, length_operations_sendingLeg, harcs]
  show 1 + (2 + (_ + (_ + 1)) + 0) = _
  omega

end Count

/-! ## No overflow

Each subtraction takes an amount from what is no less, and each addition stays within the sum of the
two arcs of an edge or within the total. An edge is used once only, and so is each root, so that an
operation finds the amounts as they were before the path was augmented. -/

/-- **An arc can spare an amount**, and its sister has room for it. This is all that pushing over
the arc requires, and it speaks of no other edge. -/
structure Spares (r : Residual (Signed w) n m) (x : Signed w) (a : Arc m) : Prop where
  /-- The amount is not negative. -/
  nonneg : 0 ≤ x.toInt
  /-- The arc has it left. -/
  le_residual : x.toInt ≤ (r.residual a).toInt
  /-- Neither has the sister less than nothing left. -/
  sister_nonneg : 0 ≤ (r.residual a.sister).toInt
  /-- And what the two have together has a word. -/
  add_sister_le : (r.residual a).toInt + (r.residual a.sister).toInt ≤ Signed.maxValue w

namespace Spares

/-- Pushing what an arc can spare does not overflow, neither at the arc nor at its sister. -/
theorem exact_pushing (h : r.Spares x a) : (r.pushing a x).Exact := by
  obtain ⟨hx, hle, hsister, hsum⟩ := h
  refine Recorded.exact_bind (Recorded.exact_run ⟨?_, ?_⟩)
    (Recorded.exact_bind (Recorded.exact_run ⟨?_, ?_⟩) (Recorded.exact_pure _))
  all_goals
    simp only [Operation.exact]
    omega

/-- Pushing over one edge leaves the others alone. -/
theorem push (h : r.Spares x a) (hedge : a.edge ≠ b.edge) : (r.push b x).Spares x a := by
  have ha : (r.push b x).residual a = r.residual a := residual_push_of_edge_ne hedge
  have hs : (r.push b x).residual a.sister = r.residual a.sister :=
    residual_push_of_edge_ne hedge
  refine ⟨h.nonneg, ?_, ?_, ?_⟩
  · rw [ha]
    exact h.le_residual
  · rw [hs]
    exact h.sister_nonneg
  · rw [ha, hs]
    exact h.add_sister_le

/-- Drawing on a terminal concerns no arc. -/
theorem draw (h : r.Spares x a) (s : Side) (v : Fin n) (y : Signed w) :
    (r.draw s v y).Spares x a := ⟨h.nonneg, h.le_residual, h.sister_nonneg, h.add_sister_le⟩

/-- Pushing over several edges leaves the others alone. -/
theorem foldl_push {arcs : List (Arc m)} (h : r.Spares x a)
    (hedge : ∀ b ∈ arcs, a.edge ≠ b.edge) :
    (arcs.foldl (fun r b => r.push b x) r).Spares x a := by
  induction arcs generalizing r with
  | nil => exact h
  | cons b arcs ih =>
    exact ih (h.push (hedge b List.mem_cons_self)) fun c hc =>
      hedge c (List.mem_cons_of_mem b hc)

/-- Sending along a leg leaves what is not on it alone. -/
theorem sendLeg (h : r.Spares x a) (hedge : ∀ b ∈ leg.links, a.edge ≠ b.edge) :
    (r.sendLeg s leg x).Spares x a := by
  rw [sendLeg_eq]
  refine (h.foldl_push fun c hc => ?_).draw _ _ _
  obtain ⟨b, hb, rfl⟩ := List.mem_map.1 hc
  rw [s.edge_carrier]
  exact hedge b hb

end Spares

/-- **Pushing over the arcs of different edges** does not overflow. -/
theorem exact_foldlM_pushing {arcs : List (Arc m)} (harcs : (arcs.map Arc.edge).Nodup)
    (h : ∀ a ∈ arcs, r.Spares x a) :
    (arcs.foldlM (fun r a => pushing r a x) r).Exact := by
  induction arcs generalizing r with
  | nil => exact Recorded.exact_pure r
  | cons a arcs ih =>
    rw [List.map_cons, List.nodup_cons] at harcs
    rw [List.foldlM_cons]
    refine Recorded.exact_bind (h a List.mem_cons_self).exact_pushing ?_
    rw [value_pushing]
    refine ih harcs.2 fun b hb => (h b (List.mem_cons_of_mem a hb)).push fun hedge => ?_
    exact harcs.1 (hedge ▸ List.mem_map_of_mem hb)

/-- **Sending along a leg** does not overflow, if its links can spare the amount and its root has it
left at its terminal. -/
theorem exact_sendingLeg (hedges : (leg.links.map Arc.edge).Nodup)
    (h : ∀ b ∈ leg.links, r.Spares x (s.carrier b))
    (hroot : match s with
      | .source => x.toInt ≤ (r.excess leg.root).toInt
      | .sink => (r.excess leg.root).toInt ≤ -x.toInt)
    (habs : |(r.excess leg.root).toInt| ≤ Signed.maxValue w) (hx : 0 ≤ x.toInt) :
    (r.sendingLeg s leg x).Exact := by
  have hbounds := abs_le.1 habs
  have harcs : ((leg.links.map s.carrier).map Arc.edge).Nodup := by
    rw [List.map_map, show Arc.edge ∘ s.carrier = Arc.edge from funext s.edge_carrier]
    exact hedges
  have hfold : leg.links.foldlM (fun r a => pushing r (s.carrier a) x) r
      = (leg.links.map s.carrier).foldlM (fun r a => pushing r a x) r := by
    rw [List.foldlM_map]
  refine Recorded.exact_bind ?_ (Recorded.exact_bind (Recorded.exact_run ?_)
    (Recorded.exact_pure _))
  · rw [hfold]
    exact exact_foldlM_pushing harcs (List.forall_mem_map.2 h)
  · -- the root is drawn on last, and has what it had before the links were pushed over
    rw [hfold, Recorded.value_foldlM]
    simp only [value_pushing, excess_foldl_push]
    cases s with
    | source =>
      simp only [Operation.Fits, Operation.exact]
      omega
    | sink =>
      simp only [Operation.Fits, Operation.exact]
      omega

variable {total : Int} {T : Topology n m} {f : Forest n m}

/-- Every arc of a path can spare what the path has left. -/
theorem Balanced.spares (h : r.Balanced total) (hx : r.Sendable p x.toInt) (ha : a ∈ p.arcs) :
    r.Spares x a :=
  ⟨hx.pos.le, hx.le_residual ha, h.residual_nonneg _,
    (h.residual_add_sister_le a).trans h.total_le⟩

/-- **Sending what an augmenting path has left** does not overflow. Whatever has its turn, the
bridge, a leg or the flow, what has been done before is on other edges and at other nodes. -/
theorem Balanced.exact_sending (h : r.Balanced total) (hp : f.Augmenting T r.support p)
    (hx : r.Sendable p x.toInt) : (r.sending p x).Exact := by
  have hpos := hx.pos
  have hbridge : r.Spares x p.bridge := h.spares hx (Path.mem_arcs.2 (.inl rfl))
  -- the bridge is on neither leg
  have hpushed (s : Side) : ∀ b ∈ (p.leg s).links,
      (r.push p.bridge x).Spares x (s.carrier b) := by
    intro b hb
    refine (h.spares hx (Path.mem_arcs.2 (.inr ⟨s, b, hb, rfl⟩))).push ?_
    rw [s.edge_carrier]
    exact (hp.bridge_edge_ne hb).symm
  -- the source leg is on other edges than the sink leg, and draws at another node
  have hsent : ∀ b ∈ p.sink.links,
      ((r.push p.bridge x).sendLeg .source p.source x).Spares x (Side.sink.carrier b) := fun b hb =>
    (hpushed .sink b hb).sendLeg fun a ha => (hp.leg_edge_ne ha hb).symm
  have hroot : ((r.push p.bridge x).sendLeg .source p.source x).excess p.sink.root
      = r.excess p.sink.root := by
    rw [excess_sendLeg, if_neg (Ne.symm hp.root_ne), excess_push]
  refine Recorded.exact_bind hbridge.exact_pushing
    (Recorded.exact_bind ?_ (Recorded.exact_bind ?_
      (Recorded.exact_bind (Recorded.exact_run ?_) (Recorded.exact_pure _))))
  · rw [value_pushing]
    exact exact_sendingLeg (hp.nodup_leg_edges .source) (hpushed .source) hx.le_source
      (h.abs_excess_le _) hpos.le
  · rw [value_pushing, value_sendingLeg]
    refine exact_sendingLeg (hp.nodup_leg_edges .sink) hsent ?_ ?_ hpos.le
    · have hle := hx.le_sink
      rw [hroot]
      omega
    · rw [hroot]
      exact h.abs_excess_le _
  · -- what the flow gains is still counted at the root, which had it left
    have hle := hx.le_source
    have hflow := h.flow_add_excess_le p.source.root
    have htotal := h.total_le
    have hnonneg := h.flow_nonneg
    rw [abs_of_nonneg (by omega)] at hflow
    simp only [value_pushing, value_sendingLeg, flow_sendLeg, flow_push, Operation.Fits,
      Operation.exact]
    omega

/-- **Augmenting does not overflow.** -/
theorem Balanced.exact_augmenting (h : r.Balanced total) (hw : 0 < w)
    (hp : f.Augmenting T r.support p) : (r.augmenting p).Exact := by
  have hx := h.sendable hw hp
  refine Recorded.exact_bind (Recorded.exact_bind (Recorded.exact_run ?_)
    (Recorded.exact_pure _)) ?_
  · have hexcess := h.flow_add_excess_le p.sink.root
    have hflow := h.flow_nonneg
    have htotal := h.total_le
    have hsink := hx.le_sink
    have hpos := hx.pos
    rw [abs_of_neg (by omega)] at hexcess
    simp only [Operation.Fits, Operation.exact]
    omega
  · rw [Path.value_measuring]
    exact Recorded.exact_bind (h.exact_sending hp hx) (Recorded.exact_pure _)

end Residual

end MinCut
