import MinCut.Capacity.Signed
import MinCut.Proofs.Forest.Cut
import MinCut.Proofs.Network.Sums
import MinCut.Proofs.Residual.Send
import MinCut.Search
import Mathlib.Algebra.Order.BigOperators.Group.Finset

/-!
# Balance

Machine words wrap, and what keeps the search from ever seeing it is one
equation. The flow counted twice, what is left at the terminals and what is left
on the arcs always add up to the same total, which has a word of its own
(`Residual.Balanced`). No amount ever exceeds it, so that sending along an
augmenting path is exact throughout (`Residual.Balanced.moved_send`).

`Residual.Moved` says in integers what sending an amount does. Everything else is
derived from it: the balance is kept, the trees see a `Support.Sent`, and what
the source can still supply falls by the amount.
-/

namespace MinCut

open Finset

variable {n m w : Nat}

/-! ## Smallest words -/

/-- The smallest capacity is one of those it has been taken from. -/
theorem Capacity.smallest_mem {α : Type} [Capacity α] (a : α) (l : List α) :
    smallest a l ∈ a :: l := by
  induction l generalizing a with
  | nil => exact List.mem_singleton_self a
  | cons b l ih =>
    rw [smallest_cons]
    rcases List.mem_cons.1 (ih (smaller a b)) with h | h
    · rw [h]
      unfold smaller
      split <;> simp
    · exact List.mem_cons_of_mem _ (List.mem_cons_of_mem _ h)

/-- It stands for an integer that is no larger than the others. -/
theorem Signed.smallest_le {a b : Signed w} {l : List (Signed w)} (hb : b ∈ a :: l) :
    (Capacity.smallest a l).toInt ≤ b.toInt := by
  induction l generalizing a b with
  | nil => rw [List.mem_singleton.1 hb, Capacity.smallest_nil]
  | cons c l ih =>
    have hsmaller : (Capacity.smaller a c).toInt = min c.toInt a.toInt := toInt_ite_lt c a
    have hhead := ih (a := Capacity.smaller a c) List.mem_cons_self
    rw [hsmaller] at hhead
    rw [Capacity.smallest_cons]
    rcases List.mem_cons.1 hb with rfl | hb
    · exact hhead.trans (min_le_right _ _)
    · rcases List.mem_cons.1 hb with rfl | hb
      · exact hhead.trans (min_le_left _ _)
      · exact ih (List.mem_cons_of_mem _ hb)

namespace Residual

variable {r r' : Residual (Signed w) n m} {total x : Int} {p : Path n m}
variable {T : Topology n m} {f : Forest n m}

/-! ## The support in integers -/

/-- The trees see an arc as carrying flow if something is left on it. -/
theorem carries_support_iff {a : Arc m} :
    r.support.carries a = true ↔ 0 < (r.residual a).toInt := by
  rw [carries_support, decide_eq_true_iff, Signed.lt_iff, Signed.toInt_zero]

/-- They see a node at the source if its amount is positive. -/
theorem terminal_support_source_iff {v : Fin n} :
    r.support.terminal v = some .source ↔ 0 < (r.excess v).toInt := by
  unfold support
  simp only [Signed.lt_iff, Signed.toInt_zero]
  split
  · simp [*]
  · split <;> simp [*]

/-- They see it at the sink if its amount is negative. -/
theorem terminal_support_sink_iff {v : Fin n} :
    r.support.terminal v = some .sink ↔ (r.excess v).toInt < 0 := by
  unfold support
  simp only [Signed.lt_iff, Signed.toInt_zero]
  split
  · rename_i h
    simp [not_lt.2 (le_of_lt h)]
  · split <;> simp [*]

/-- Only the amount of a node decides where the trees see it. -/
theorem terminal_support_congr {v : Fin n} (h : r'.excess v = r.excess v) :
    r'.support.terminal v = r.support.terminal v := by
  unfold support
  simp only [h]

/-! ## Balanced amounts

The invariant of the amounts is stated in integers. No arc has less than nothing left, and the flow,
counted twice, adds up to the total with all that is left on arcs and at nodes. The total is a word,
and therefore each of these amounts has one. -/

/-- **The amounts of a network add up** to a total that has a word. -/
structure Balanced (total : Int) (r : Residual (Signed w) n m) : Prop where
  /-- The total has a word. -/
  total_le : total ≤ Signed.maxValue w
  /-- No arc has less than nothing left. -/
  residual_nonneg (a : Arc m) : 0 ≤ (r.residual a).toInt
  /-- Neither has the flow ever been less than nothing. -/
  flow_nonneg : 0 ≤ r.flow.toInt
  /-- The flow has been taken from one terminal and given to another, so it
  counts twice. -/
  ledger : 2 * r.flow.toInt + ∑ v, |(r.excess v).toInt| + ∑ a, (r.residual a).toInt = total

namespace Balanced

/-- Neither have all arcs together. -/
theorem sum_residual_nonneg (h : r.Balanced total) : 0 ≤ ∑ a, (r.residual a).toInt :=
  sum_nonneg fun a _ => h.residual_nonneg a

/-- Nor have all nodes, if both terminals are counted alike. -/
theorem sum_excess_nonneg (r : Residual (Signed w) n m) : 0 ≤ ∑ v, |(r.excess v).toInt| :=
  sum_nonneg fun _ _ => abs_nonneg _

/-- The two arcs of an edge never have more than the total between them. -/
theorem residual_add_sister_le (h : r.Balanced total) (a : Arc m) :
    (r.residual a).toInt + (r.residual a.sister).toInt ≤ total := by
  have hpair : (r.residual a).toInt + (r.residual a.sister).toInt
      ≤ ∑ b, (r.residual b).toInt := by
    rw [← sum_pair (f := fun b => (r.residual b).toInt) (Ne.symm a.sister_ne)]
    exact sum_le_sum_of_subset_of_nonneg (subset_univ _) fun b _ _ => h.residual_nonneg b
  have := h.ledger
  have := h.flow_nonneg
  have := sum_excess_nonneg r
  omega

/-- The flow, counted twice, and what a node has left never exceed the total. -/
theorem flow_add_excess_le (h : r.Balanced total) (v : Fin n) :
    2 * r.flow.toInt + |(r.excess v).toInt| ≤ total := by
  have hsingle : |(r.excess v).toInt| ≤ ∑ u, |(r.excess u).toInt| :=
    single_le_sum (f := fun u => |(r.excess u).toInt|) (fun u _ => abs_nonneg _) (mem_univ v)
  have := h.ledger
  have := h.sum_residual_nonneg
  omega

/-- So what a node has left at its terminal has a word, and so has its opposite. -/
theorem abs_excess_le (h : r.Balanced total) (v : Fin n) :
    |(r.excess v).toInt| ≤ Signed.maxValue w := by
  have hle := h.flow_add_excess_le v
  have hnonneg := h.flow_nonneg
  have htotal := h.total_le
  omega

/-- What a node has left at its terminal changes its sign exactly. -/
theorem toInt_neg_excess (h : r.Balanced total) (hw : 0 < w) (v : Fin n) :
    (-r.excess v).toInt = -(r.excess v).toInt := by
  refine Signed.toInt_neg hw ?_
  have := h.flow_add_excess_le v
  have := h.flow_nonneg
  have := h.total_le
  have := neg_le_abs (r.excess v).toInt
  omega

end Balanced

/-! ## The bottleneck

The bottleneck of a path is an amount that each arc and both roots can spare, and one of them has no
more than that. -/

/-- **An amount that a path has left everywhere.** -/
structure Sendable (p : Path n m) (x : Int) (r : Residual (Signed w) n m) : Prop where
  /-- It is something. -/
  pos : 0 < x
  /-- Every arc of the path has it left. -/
  le_residual {a : Arc m} : a ∈ p.arcs → x ≤ (r.residual a).toInt
  /-- So has the root of the source tree at the source. -/
  le_source : x ≤ (r.excess p.source.root).toInt
  /-- So has the root of the sink tree at the sink, where amounts are negative. -/
  le_sink : x ≤ -(r.excess p.sink.root).toInt

/-- What a leg has left is what its links have left, and its root at the terminal. -/
theorem mem_slacks {s : Side} {leg : Leg n m} {y : Signed w} :
    y ∈ leg.slacks r s
      ↔ (∃ b ∈ leg.links, r.residual (s.carrier b) = y) ∨ y = r.slack s leg.root := by
  unfold Leg.slacks
  rw [List.mem_append, List.mem_map, List.mem_singleton]

/-- What the bottleneck is taken from. -/
theorem mem_bottleneck {y : Signed w} :
    y ∈ r.residual p.bridge :: (p.source.slacks r .source ++ p.sink.slacks r .sink)
      ↔ (∃ a ∈ p.arcs, r.residual a = y) ∨ y = r.excess p.source.root
        ∨ y = -r.excess p.sink.root := by
  rw [List.mem_cons, List.mem_append, mem_slacks, mem_slacks]
  constructor
  · rintro (rfl | (⟨b, hb, rfl⟩ | h) | ⟨b, hb, rfl⟩ | h)
    · exact .inl ⟨p.bridge, Path.mem_arcs.2 (.inl rfl), rfl⟩
    · exact .inl ⟨_, Path.mem_arcs.2 (.inr ⟨.source, b, hb, rfl⟩), rfl⟩
    · exact .inr (.inl h)
    · exact .inl ⟨_, Path.mem_arcs.2 (.inr ⟨.sink, b, hb, rfl⟩), rfl⟩
    · exact .inr (.inr h)
  · rintro (⟨a, ha, rfl⟩ | h | h)
    · rcases Path.mem_arcs.1 ha with rfl | ⟨_ | _, b, hb, rfl⟩
      · exact .inl rfl
      · exact .inr (.inl (.inl ⟨b, hb, rfl⟩))
      · exact .inr (.inr (.inl ⟨b, hb, rfl⟩))
    · exact .inr (.inl (.inr h))
    · exact .inr (.inr (.inr h))

/-- **The bottleneck is left somewhere**: on an arc of the path, or at one of its roots. -/
theorem bottleneck_cases (r : Residual (Signed w) n m) (p : Path n m) :
    (∃ a ∈ p.arcs, r.residual a = p.bottleneck r) ∨ p.bottleneck r = r.excess p.source.root
      ∨ p.bottleneck r = -r.excess p.sink.root := by
  rw [p.bottleneck_eq_smallest]
  exact mem_bottleneck.1 (Capacity.smallest_mem _ _)

/-- **The bottleneck of an augmenting path can be sent along it.** -/
theorem Balanced.sendable (h : r.Balanced total) (hw : 0 < w)
    (hp : f.Augmenting T r.support p) : r.Sendable p (p.bottleneck r).toInt := by
  have hsource : 0 < (r.excess p.source.root).toInt :=
    terminal_support_source_iff.1 (hp.terminal_root .source)
  have hsink : (r.excess p.sink.root).toInt < 0 :=
    terminal_support_sink_iff.1 (hp.terminal_root .sink)
  have hneg := h.toInt_neg_excess hw p.sink.root
  refine ⟨?_, fun ha => ?_, ?_, ?_⟩
  · obtain ⟨a, ha, heq⟩ | heq | heq := bottleneck_cases r p
    · rw [← heq]
      exact carries_support_iff.1 (hp.carries_of_mem ha)
    · rw [heq]
      exact hsource
    · rw [heq, hneg]
      omega
  · exact Signed.smallest_le (mem_bottleneck.2 (.inl ⟨_, ha, rfl⟩))
  · exact Signed.smallest_le (mem_bottleneck.2 (.inr (.inl rfl)))
  · rw [← hneg]
    exact Signed.smallest_le (mem_bottleneck.2 (.inr (.inr rfl)))

/-! ## Sending in integers

Sending the bottleneck is exact, so that it can be told in integers what it does (`Residual.Moved`).
Everything else is derived from this: what becomes of sums, of the balance, and of what the trees
see of the amounts. -/

/-- **What sending an amount along a path does**, in integers. It speaks of no words, and so it is
used wherever sums over nodes or arcs are to be formed. -/
structure Moved (p : Path n m) (x : Int) (r r' : Residual (Signed w) n m) : Prop where
  /-- Each arc of the path has given the amount to its sister. -/
  residual (a : Arc m) : (r'.residual a).toInt
    = (r.residual a).toInt - (if a ∈ p.arcs then x else 0) + (if a.sister ∈ p.arcs then x else 0)
  /-- The root of the source tree has drawn it from the source. -/
  source : (r'.excess p.source.root).toInt = (r.excess p.source.root).toInt - x
  /-- The root of the sink tree has given it to the sink. -/
  sink : (r'.excess p.sink.root).toInt = (r.excess p.sink.root).toInt + x
  /-- No other node has drawn on a terminal. -/
  excess {v : Fin n} : v ≠ p.source.root → v ≠ p.sink.root → r'.excess v = r.excess v
  /-- The flow has grown by it. -/
  flow : r'.flow.toInt = r.flow.toInt + x

/-- An augmenting path does not use an arc and its sister. -/
theorem sister_not_mem (hp : (p.arcs.map Arc.edge).Nodup) {a : Arc m} (ha : a ∈ p.arcs) :
    a.sister ∉ p.arcs := fun hs =>
  a.sister_ne (List.inj_on_of_nodup_map hp hs ha a.edge_sister)

/-- **Sending what a path has left is exact.** -/
theorem Balanced.moved_send (h : r.Balanced total) (hw : 0 < w)
    (hp : f.Augmenting T r.support p) {b : Signed w} (hb : r.Sendable p b.toInt) :
    r.Moved p b.toInt (r.send p b) := by
  have htotal := h.total_le
  have hflow := h.flow_nonneg
  have hpos := hb.pos
  have hmin := Signed.minValue_eq w
  have hsource := h.flow_add_excess_le p.source.root
  have hsink := h.flow_add_excess_le p.sink.root
  rw [abs_of_pos (lt_of_lt_of_le hpos hb.le_source)] at hsource
  rw [abs_of_neg (by linarith [hb.le_sink])] at hsink
  have hle := hb.le_source
  have hle' := hb.le_sink
  -- every exact result lies between zero and the total, or above its opposite
  refine ⟨fun a => ?_, ?_, ?_, fun hs ht => ?_, ?_⟩
  · -- the arcs of the path, their sisters, and all others
    rw [residual_send hp.nodup_edges]
    have hnonneg := h.residual_nonneg a
    have hpair := h.residual_add_sister_le a
    by_cases ha : a ∈ p.arcs
    · have hcap := hb.le_residual ha
      have hnonneg' := h.residual_nonneg a.sister
      rw [if_pos ha, if_pos ha, if_neg (sister_not_mem hp.nodup_edges ha), Int.add_zero]
      exact Signed.toInt_sub hw (by omega) (by omega)
    · rw [if_neg ha, if_neg ha, Int.sub_zero]
      by_cases hs : a.sister ∈ p.arcs
      · have hcap := hb.le_residual hs
        rw [if_pos hs, if_pos hs]
        exact Signed.toInt_add hw (by omega) (by omega)
      · rw [if_neg hs, if_neg hs, Int.add_zero]
  · -- the two roots
    rw [excess_send hp.root_ne, if_pos rfl]
    exact Signed.toInt_sub hw (by omega) (by omega)
  · rw [excess_send hp.root_ne, if_neg (Ne.symm hp.root_ne), if_pos rfl]
    exact Signed.toInt_add hw (by omega) (by omega)
  · rw [excess_send hp.root_ne, if_neg hs, if_neg ht]
  · rw [flow_send]
    exact Signed.toInt_add hw (by omega) (by omega)

namespace Moved

/-- **A sum over the nodes** changes at the two roots only. -/
theorem sum_excess (h : r.Moved p x r') (hp : f.Augmenting T r.support p)
    (φ : Fin n → Int → Int) :
    ∑ v, φ v (r'.excess v).toInt = ∑ v, φ v (r.excess v).toInt
      + (φ p.source.root ((r.excess p.source.root).toInt - x)
        - φ p.source.root (r.excess p.source.root).toInt)
      + (φ p.sink.root ((r.excess p.sink.root).toInt + x)
        - φ p.sink.root (r.excess p.sink.root).toInt) := by
  rw [← h.source, ← h.sink]
  exact sum_eq_of_two hp.root_ne fun v hs ht => by rw [h.excess hs ht]

/-- **A weighted sum over the arcs** changes by what the weights lose along the
path. -/
theorem sum_residual (h : r.Moved p x r') (hp : f.Augmenting T r.support p)
    (weight : Arc m → Int) :
    ∑ a, weight a * (r'.residual a).toInt = ∑ a, weight a * (r.residual a).toInt
      - x * (p.arcs.map fun a => weight a - weight a.sister).sum :=
  Arc.sum_shift hp.nodup_edges.of_map weight _ _ x h.residual

/-- **The balance is kept.** -/
theorem balanced (h : r.Moved p x r') (hx : r.Sendable p x) (hp : f.Augmenting T r.support p)
    (hr : r.Balanced total) : r'.Balanced total := by
  have hpos := hx.pos
  refine ⟨hr.total_le, fun a => ?_, ?_, ?_⟩
  · -- no arc of the path has had less than what it loses
    rw [h.residual]
    have hnonneg := hr.residual_nonneg a
    by_cases ha : a ∈ p.arcs
    · have hcap := hx.le_residual ha
      rw [if_pos ha]
      split <;> omega
    · rw [if_neg ha]
      split <;> omega
  · rw [h.flow]
    have := hr.flow_nonneg
    omega
  · have hresidual := h.sum_residual hp fun _ => 1
    have hexcess := h.sum_excess hp fun _ => abs
    have hle := hx.le_source
    have hle' := hx.le_sink
    -- each root loses the amount, and the flow counts it twice
    have hweight : (p.arcs.map fun _ => (1 : Int) - 1).sum = 0 := by simp
    rw [hweight, mul_zero, sub_zero] at hresidual
    simp only [one_mul] at hresidual
    rw [abs_of_nonneg (by omega), abs_of_nonneg (by omega), abs_of_nonpos (by omega),
      abs_of_nonpos (by omega)] at hexcess
    rw [hresidual, hexcess, h.flow, ← hr.ledger]
    omega

/-- The only amounts at terminals that change are drawn on, and none changes its
sign. -/
theorem excess_cases (h : r.Moved p x r') (hx : r.Sendable p x) (v : Fin n) :
    r'.excess v = r.excess v
      ∨ v = p.source.root ∧ 0 < (r.excess v).toInt ∧ 0 ≤ (r'.excess v).toInt
      ∨ v = p.sink.root ∧ (r.excess v).toInt < 0 ∧ (r'.excess v).toInt ≤ 0 := by
  have hpos := hx.pos
  by_cases hsource : v = p.source.root
  · have hle := hx.le_source
    have hamount := h.source
    subst hsource
    exact .inr (.inl ⟨rfl, by omega, by omega⟩)
  · by_cases hsink : v = p.sink.root
    · have hle := hx.le_sink
      have hamount := h.sink
      subst hsink
      exact .inr (.inr ⟨rfl, by omega, by omega⟩)
    · exact .inl (h.excess hsource hsink)

/-- No node gains capacity at a terminal. -/
theorem terminal_of (h : r.Moved p x r') (hx : r.Sendable p x) {v : Fin n} {s : Side}
    (hv : r'.support.terminal v = some s) : r.support.terminal v = some s := by
  rcases h.excess_cases hx v with hsame | ⟨_, hbefore, hafter⟩ | ⟨_, hbefore, hafter⟩
  · rwa [← terminal_support_congr hsame]
  · cases s with
    | source => exact terminal_support_source_iff.2 hbefore
    | sink =>
      rw [terminal_support_sink_iff] at hv
      omega
  · cases s with
    | source =>
      rw [terminal_support_source_iff] at hv
      omega
    | sink => exact terminal_support_sink_iff.2 hbefore

/-- Only the root on its side may lose all it has at a terminal. -/
theorem terminal_keep (h : r.Moved p x r') (hx : r.Sendable p x) {v : Fin n} {s : Side}
    (hv : r.support.terminal v = some s) (hne : v ≠ (p.leg s).root) :
    r'.support.terminal v = some s := by
  rcases h.excess_cases hx v with hsame | ⟨hroot, hbefore, _⟩ | ⟨hroot, hbefore, _⟩
  · rwa [terminal_support_congr hsame]
  · cases s with
    | source => exact absurd hroot hne
    | sink =>
      rw [terminal_support_sink_iff] at hv
      omega
  · cases s with
    | source =>
      rw [terminal_support_source_iff] at hv
      omega
    | sink => exact absurd hroot hne

/-- **What the trees see of it.** -/
theorem sent (h : r.Moved p x r') (hx : r.Sendable p x) :
    Support.Sent p r.support r'.support := by
  have hpos := hx.pos
  refine ⟨fun {a} ha => ?_, fun {a} ha hnot => ?_, h.terminal_of hx, h.terminal_keep hx⟩
  · rw [carries_support_iff, h.residual] at ha
    rw [carries_support_iff]
    by_cases hs : a.sister ∈ p.arcs
    · exact .inr hs
    · rw [if_neg hs] at ha
      left
      split at ha <;> omega
  · rw [carries_support_iff] at ha
    rw [carries_support_iff, h.residual, if_neg hnot]
    split <;> omega

end Moved

/-! ## What the source can supply -/

/-- The supply counts what is left at the source. -/
theorem supply_eq (r : Residual (Signed w) n m) :
    (r.supply : Int) = ∑ v, max (r.excess v).toInt 0 := by
  have hlist (l : List (Fin n)) :
      (((l.map fun v => Capacity.units (r.excess v)).foldr (· + ·) 0 : Nat) : Int)
        = (l.map fun v => max (r.excess v).toInt 0).sum := by
    induction l with
    | nil => rfl
    | cons v l ih =>
      rw [List.map_cons, List.foldr_cons, Nat.cast_add, ih, List.map_cons, List.sum_cons]
      exact congrArg (· + _) (Int.toNat_eq_max _)
  rw [supply, hlist, ← List.sum_toFinset _ (List.nodup_finRange n)]
  refine sum_congr ?_ fun _ _ => rfl
  ext v
  simp

/-- **The supply falls by what is sent.** -/
theorem Moved.supply (h : r.Moved p x r') (hx : r.Sendable p x)
    (hp : f.Augmenting T r.support p) : (r'.supply : Int) = r.supply - x := by
  have hle := hx.le_source
  have hle' := hx.le_sink
  have hpos := hx.pos
  rw [supply_eq, supply_eq, h.sum_excess hp fun _ e => max e 0]
  omega

end Residual

end MinCut
