import MinCut.Proofs.Forest.Expulsion
import MinCut.Proofs.Loop
import MinCut.Proofs.Residual.Balance

/-!
# Walking up the legs of a path

An augmentation does not have its path as a list. It walks up from either end of the
bridge, from link to link until it comes to a root: once to find the bottleneck
(`Residual.measure`) and once more to send it, where it also cuts off each node as soon
as its link has nothing left (`Residual.pour`).

The walks end because the ends of the bridge have legs. The second one changes links
while it follows them, but no node of a leg is passed twice, and neither is an edge. So
the links ahead are still there, what is left on the links behind stays what it is,
and in the end just those nodes have been cut off whose links do not hold any more.
-/

namespace MinCut

variable {n m w : Nat} {T : Topology n m}

namespace Residual

section Walks

variable {α : Type} [Capacity α]

/-- Takes the link of a node into the bottleneck. The walk is over at the root, whose
terminal is taken into it. -/
def measure (T : Topology n m) (f : Forest n m) (r : Residual α n m) (s : Side) :
    α × Fin n → (α × Fin n) ⊕ α
  | (x, v) =>
    match f.link? v with
    | some (.arc a) => .inl (Capacity.smaller x (r.residual (s.carrier a)), T.head a)
    | _ => .inr (Capacity.smaller x (r.slack s v))

/-- Whether nothing is left of a node's capacity at the terminal of one side. -/
def drained (r : Residual α n m) (s : Side) (v : Fin n) : Bool :=
  match s with
  | .source => r.excess v ≤ 0
  | .sink => 0 ≤ r.excess v

/-- Sends an amount over the link of a node, and cuts the node off if nothing is left
there. The walk is over at the root, which draws on its terminal. -/
def pour (T : Topology n m) (s : Side) (x : α) : Residual α n m × Forest n m × Fin n →
    (Residual α n m × Forest n m × Fin n) ⊕ (Residual α n m × Forest n m)
  | (r, f, v) =>
    match f.link? v with
    | some (.arc a) =>
      let r := r.push (s.carrier a) x
      .inl (r, if r.residual (s.carrier a) ≤ 0 then f.orphanFront v else f, T.head a)
    | _ =>
      let r := r.draw s v x
      .inr (r, if r.drained s v then f.orphanFront v else f)

/-- **Augmenting the path that a bridge closes ends**, with the amount sent, the amounts
left and the forest in which nodes have been cut off. -/
inductive Augments (T : Topology n m) (r : Residual α n m) (f : Forest n m) (bridge : Arc m) :
    α × Residual α n m × Forest n m → Prop
  | walks {x amount : α} {r₁ r₂ : Residual α n m} {f₁ f₂ : Forest n m}
      (measure_source : Loop.Ends (measure T f r .source) (r.residual bridge, T.tail bridge) x)
      (measure_sink : Loop.Ends (measure T f r .sink) (x, T.head bridge) amount)
      (pour_source : Loop.Ends (pour T .source amount)
        (r.push bridge amount, f, T.tail bridge) (r₁, f₁))
      (pour_sink : Loop.Ends (pour T .sink amount) (r₁, f₁, T.head bridge) (r₂, f₂)) :
      Augments T r f bridge (amount, r₂.credit amount, f₂)

variable {f : Forest n m} {leg : Leg n m} {r : Residual α n m} {s : Side} {v : Fin n}

/-! ## Measuring -/

/-- **The walk that measures a leg ends**, with the smallest amount left on it. -/
theorem ends_measure (h : f.Climb T v leg) (r : Residual α n m) (s : Side) (x : α) :
    Loop.Ends (measure T f r s) (x, v) (Capacity.smallest x (leg.slacks r s)) := by
  induction h generalizing x with
  | @root v hl =>
    refine .last ?_
    unfold measure
    simp only [hl]
    rfl
  | @up v a leg hl _ ih =>
    refine .next ?_ (ih (Capacity.smaller x (r.residual (s.carrier a))))
    unfold measure
    simp only [hl]

/-- The bottleneck is found on one leg after the other. -/
theorem bottleneck_eq (p : Path n m) (r : Residual α n m) :
    p.bottleneck r = Capacity.smallest
      (Capacity.smallest (r.residual p.bridge) (p.source.slacks r .source))
      (p.sink.slacks r .sink) :=
  List.foldl_append

/-! ## Sending and cutting off

The walk along a leg sends over each link and looks at once whether it is used up. Sending over the
rest of the leg does not change that, as no edge is used twice. So the walk cuts off the nodes that
hang loose after all has been sent. -/

/-- Sending along a leg changes nothing on other edges. -/
theorem residual_sendLeg_of_edge_ne {a : Arc m} (ha : ∀ b ∈ leg.links, a.edge ≠ b.edge)
    (r : Residual α n m) (s : Side) (x : α) : (r.sendLeg s leg x).residual a = r.residual a := by
  have hpush (links : List (Arc m)) (hlinks : ∀ b ∈ links, a.edge ≠ b.edge)
      (r : Residual α n m) :
      (links.foldl (fun r b => r.push (s.carrier b) x) r).residual a = r.residual a := by
    induction links generalizing r with
    | nil => rfl
    | cons b links ih =>
      rw [List.foldl_cons, ih fun c hc => hlinks c (List.mem_cons_of_mem b hc)]
      refine residual_push_of_edge_ne fun hedge => hlinks b List.mem_cons_self ?_
      rw [hedge, s.edge_carrier]
  rw [sendLeg_eq_foldl, residual_draw, hpush leg.links ha]

end Walks

variable {f g : Forest n m} {leg : Leg n m} {r : Residual (Signed w) n m} {s : Side} {v : Fin n}
variable {S S' : Support n m} {p : Path n m} {x : Signed w}

/-- The walk sees a root as used up if the trees see it at its terminal no longer. -/
theorem drained_iff : r.drained s v = true ↔ r.support.terminal v ≠ some s := by
  cases s with
  | source =>
    rw [ne_eq, terminal_support_source_iff, not_lt, ← Signed.toInt_zero (w := w)]
    exact decide_eq_true_iff
  | sink =>
    rw [ne_eq, terminal_support_sink_iff, not_lt, ← Signed.toInt_zero (w := w)]
    exact decide_eq_true_iff

/-- It sees a link as used up if the trees see it as holding no longer. -/
theorem residual_le_zero_iff {a : Arc m} :
    r.residual (s.carrier a) ≤ 0 ↔ r.support.live s a = false := by
  rw [← Bool.not_eq_true, Support.live, carries_support_iff, not_lt, Signed.le_iff,
    Signed.toInt_zero]

/-- What hangs loose on a leg depends on its links and its root only. -/
theorem loose_congr (hlinks : ∀ a ∈ leg.links, S'.live s a = S.live s a)
    (hroot : S'.terminal leg.root = S.terminal leg.root) :
    leg.loose T S' s = leg.loose T S s := by
  unfold Leg.loose
  rw [hroot, List.filter_congr fun a ha => congrArg (!·) (hlinks a ha)]

/-- What hangs loose on a leg without links. -/
theorem loose_root (T : Topology n m) (S : Support n m) (s : Side) (v : Fin n) :
    (⟨[], v⟩ : Leg n m).loose T S s = if S.terminal v = some s then [] else [v] := rfl

/-- What hangs loose on a leg with one more link. -/
theorem loose_up (T : Topology n m) (S : Support n m) (s : Side) (a : Arc m) (leg : Leg n m) :
    (⟨a :: leg.links, leg.root⟩ : Leg n m).loose T S s
      = if S.live s a = false then T.tail a :: leg.loose T S s else leg.loose T S s := by
  unfold Leg.loose
  rw [List.filter_cons]
  cases S.live s a <;> rfl

/-- **The walk that sends along a leg ends**, and has cut off what hangs loose then. -/
theorem ends_pour (h : f.Climb T v leg) (hl : f.Linked T S) (hnodes : (leg.nodes T).Nodup)
    (hedges : (leg.links.map Arc.edge).Nodup) (hg : ∀ u ∈ leg.nodes T, g.link? u = f.link? u)
    (r : Residual (Signed w) n m) (s : Side) (x : Signed w) :
    Loop.Ends (pour T s x) (r, g, v)
      (r.sendLeg s leg x,
        (leg.loose T (r.sendLeg s leg x).support s).foldl Forest.orphanFront g) := by
  -- over the leg, from the end of the bridge upward
  induction h generalizing r g with
  | @root v hlink =>
    -- no node ahead has been cut off yet, so that the walk finds the links that there were
    have hlink' : g.link? v = some .terminal := (hg v (List.mem_singleton_self v)).trans hlink
    refine .last ?_
    unfold pour
    simp only [hlink']
    show Sum.inr (r.draw s v x, _) = Sum.inr (r.draw s v x,
      ((⟨[], v⟩ : Leg n m).loose T (r.draw s v x).support s).foldl Forest.orphanFront g)
    rw [loose_root]
    by_cases hterminal : (r.draw s v x).support.terminal v = some s
    · rw [if_pos hterminal, if_neg fun hd => drained_iff.1 hd hterminal]
      rfl
    · rw [if_neg hterminal, if_pos (drained_iff.2 hterminal)]
      rfl
  | @up v a leg hlink rest ih =>
    obtain ⟨side, hplace⟩ := Forest.exists_place_of_link? hlink
    have htail : T.tail a = v := hl.tail hplace
    obtain ⟨hv, hnodes⟩ : v ∉ leg.nodes T ∧ (leg.nodes T).Nodup := by
      rw [← htail]
      exact List.nodup_cons.1 hnodes
    obtain ⟨hedge, hedges⟩ := List.nodup_cons.1 hedges
    have hlink' : g.link? v = some (.arc a) :=
      (hg v (htail ▸ List.mem_cons_self)).trans hlink
    -- cutting this node off does not concern those ahead
    have hahead : ∀ u ∈ leg.nodes T, g.link? u = f.link? u := fun u hu =>
      hg u (List.mem_cons_of_mem _ hu)
    have hcut : ∀ u ∈ leg.nodes T, (g.orphanFront v).link? u = f.link? u := by
      intro u hu
      have huv : u ≠ v := fun h => hv (h ▸ hu)
      exact (Forest.link?_sever_of_ne huv).trans (hahead u hu)
    -- what is left on the link now is what will be left on it
    have hlive : ((r.push (s.carrier a) x).sendLeg s leg x).support.live s a
        = (r.push (s.carrier a) x).support.live s a := by
      unfold Support.live
      rw [carries_support, carries_support, residual_sendLeg_of_edge_ne fun b hb hedge' => ?_]
      rw [s.edge_carrier] at hedge'
      exact hedge (hedge' ▸ List.mem_map_of_mem hb)
    show Loop.Ends _ _ ((r.push (s.carrier a) x).sendLeg s leg x,
      ((⟨a :: leg.links, leg.root⟩ : Leg n m).loose T
        ((r.push (s.carrier a) x).sendLeg s leg x).support s).foldl Forest.orphanFront g)
    rw [loose_up, hlive]
    by_cases hdead : (r.push (s.carrier a) x).support.live s a = false
    · rw [if_pos hdead, htail]
      refine .next ?_ (ih hnodes hedges hcut (r.push (s.carrier a) x))
      unfold pour
      simp only [hlink', if_pos (residual_le_zero_iff.2 hdead)]
    · rw [if_neg hdead]
      refine .next ?_ (ih hnodes hedges hahead (r.push (s.carrier a) x))
      unfold pour
      simp only [hlink', if_neg (mt residual_le_zero_iff.1 hdead)]

/-- **Augmenting ends**, for a path that flow can be sent along, and has done what there
is to do. -/
theorem augments (hp : f.Augmenting T S p) (r : Residual (Signed w) n m) :
    r.Augments T f p.bridge (p.bottleneck r, r.send p (p.bottleneck r),
      f.cut T (r.send p (p.bottleneck r)).support p) := by
  have hmeasure := ends_measure (hp.climb .sink) r .sink
    (Capacity.smallest (r.residual p.bridge) (p.source.slacks r .source))
  have hbottleneck : Capacity.smallest _ ((p.leg .sink).slacks r .sink) = p.bottleneck r :=
    (bottleneck_eq p r).symm
  rw [hbottleneck] at hmeasure
  generalize p.bottleneck r = x at hmeasure ⊢
  -- after the first leg, and after both
  let r₁ := (r.push p.bridge x).sendLeg .source p.source x
  let r₂ := r₁.sendLeg .sink p.sink x
  let f₁ := (p.source.loose T r₁.support .source).foldl Forest.orphanFront f
  -- the first leg cuts no node of the second one off
  have hahead : ∀ u ∈ (p.leg .sink).nodes T, f₁.link? u = f.link? u := by
    intro u hu
    have hnot : u ∉ p.source.loose T r₁.support .source := fun hloose => by
      have hsource : f.side? u = some .source := hp.side?_of_loose (s := .source) hloose
      exact absurd (hsource.symm.trans (hp.side?_of_mem hu)) (by simp)
    rw [Forest.link?_eq, Forest.place_foldl_orphanFront, if_neg hnot]
    rfl
  -- and the second one leaves all arcs of the first one alone
  have hloose : p.source.loose T r₂.support .source = p.source.loose T r₁.support .source := by
    refine loose_congr (fun a ha => ?_) (terminal_support_congr ?_)
    · unfold Support.live
      rw [carries_support, carries_support, residual_sendLeg_of_edge_ne fun b hb => ?_]
      rw [Side.edge_carrier]
      exact hp.leg_edge_ne ha hb
    · rw [excess_sendLeg, if_neg hp.root_ne]
  have hcut : f.cut T (r.send p x).support p
      = (p.sink.loose T r₂.support .sink).foldl Forest.orphanFront f₁ := by
    show (p.source.loose T r₂.support .source ++ p.sink.loose T r₂.support .sink).foldl
      Forest.orphanFront f = _
    rw [hloose, List.foldl_append]
  rw [hcut]
  exact .walks (ends_measure (hp.climb .source) r .source _) hmeasure
    (ends_pour (hp.climb .source) hp.linked (hp.nodup_leg_nodes .source)
      (hp.nodup_leg_edges .source) (fun _ _ => rfl) _ .source x)
    (ends_pour (hp.climb .sink) hp.linked (hp.nodup_leg_nodes .sink)
      (hp.nodup_leg_edges .sink) hahead r₁ .sink x)

end Residual

end MinCut
