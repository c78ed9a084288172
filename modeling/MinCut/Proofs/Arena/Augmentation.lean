import MinCut.Proofs.Arena.Layout
import MinCut.Proofs.Residual.Walk

/-!
# Augmenting a path in an arena

The walks up the legs of a path look for a link at every node they come to, and there
is one as long as the node has a depth. Sending over a link may cut off its node, which
has a greater depth than the nodes ahead, and those of the other leg are in the other
tree. So the assertion in `Arena.parentArc` never fails, and the walks come to what
`Residual.augments` says (`Arena.augment_lay`).

Each of the four walks is carried over from the forest by `Loop.Ends.run_eq`, and the invariant is
the same for all: the node that the walk has come to has a depth, hence a link. The second walk that
sends starts in the forest that the first has left, so it has to be said that the chain of its node
is still there (`Arena.depth_foldl_orphanFront`).
-/

namespace MinCut

variable {n m : Nat} {T : Topology n m}

namespace Forest

variable {f g : Forest n m} {S : Support n m} {u v : Fin n} {d e : Nat} {s : Side}

/-- Cutting off a deeper node leaves a depth as it is. -/
theorem Depth.orphanFront (h : f.Depth T u d) (hv : f.Depth T v e) (hde : d < e) :
    (f.orphanFront v).Depth T u d := by
  have hne {w : Fin n} {k : Nat} (hw : f.Depth T w k) (hk : k < e) : w ≠ v := by
    rintro rfl
    exact hk.ne (hw.unique hv)
  induction h with
  | root hl => exact .root ((link?_sever_of_ne (hne (.root hl) hde)).trans hl)
  | child hl up ih =>
    exact .child ((link?_sever_of_ne (hne (.child hl up) hde)).trans hl)
      (ih (Nat.lt_of_succ_lt hde))

/-- A depth depends on the links in one tree only. -/
theorem Depth.congr_side (h : f.Depth T v d) (hl : f.Linked T S) (hv : f.side? v = some s)
    (hfg : ∀ u, f.side? u = some s → g.link? u = f.link? u) : g.Depth T v d := by
  induction h with
  | root hlink => exact .root ((hfg _ hv).trans hlink)
  | child hlink _ ih =>
    obtain ⟨s', hplace⟩ := exists_place_of_link? hlink
    -- a parent is in the tree of its child, so the chain never leaves the tree
    obtain rfl : s' = s := Option.some.inj ((side?_of_place hplace).symm.trans hv)
    exact .child ((hfg _ hv).trans hlink) (ih (hl.head hplace))

end Forest

namespace Arena

section Walks

variable {α : Type} {r : Residual α n m} {f : Forest n m} {v : Fin n} {d : Nat}

/-- A node with a parent has an arc to it. -/
theorem parentArc_lay_arc (b : Arena α) {a : Arc m} (h : f.link? v = some (.arc a)) :
    (b.lay T r f).parentArc v = some (some a.number) := by
  simp [parentArc, h, Link.parent]

/-- A root has none, which is no panic. -/
theorem parentArc_lay_terminal (b : Arena α) (h : f.link? v = some .terminal) :
    (b.lay T r f).parentArc v = some none := by
  simp [parentArc, h, Link.parent]

variable [Capacity α]

/-- **Taking a link into the bottleneck.** -/
theorem measure_lay (b : Arena α) (hv : f.Depth T v d) (s : Side) (x : α) :
    (b.lay T r f).measure s (x, v)
      = some ((Residual.measure T f r s (x, v)).map (Prod.map id Fin.val) id) := by
  cases hv with
  | root hl => cases s <;> simp [measure, Residual.measure, parentArc_lay_terminal b hl, hl,
      Residual.slack]
  | child hl _ => simp [measure, Residual.measure, parentArc_lay_arc b hl, hl]

omit [Capacity α] in
/-- Cutting a node of a tree off, if nothing is left of its link. -/
theorem cutOff_lay (b : Arena α) (hv : f.side? v ≠ none) (drained : Bool) :
    (b.lay T r f).cutOff v drained
      = some (b.lay T r (if drained then f.orphanFront v else f)) := by
  unfold cutOff
  split
  · exact b.orphanFront_lay hv
  · rfl

/-- A terminal is drained in the record if it is in the network. -/
theorem isDrained_excess (r : Residual α n m) (s : Side) (v : Fin n) :
    isDrained s (r.excess v) = r.drained s v := by
  cases s <;> rfl

/-- **Sending over a link**, or from a terminal. -/
theorem pour_lay (b : Arena α) (hv : f.Depth T v d) (s : Side) (x : α) :
    pour s x (b.lay T r f, v) = some ((Residual.pour T s x (r, f, v)).map
      (fun (r, f, v) => (b.lay T r f, v.val)) fun (r, f) => b.lay T r f) := by
  have hcut (r : Residual α n m) := cutOff_lay (T := T) (r := r) b hv.side?_ne_none
  cases hv with
  | root hl =>
    simp [pour, Residual.pour, parentArc_lay_terminal b hl, hl, hcut, isDrained_excess]
  | child hl _ =>
    simp [pour, Residual.pour, parentArc_lay_arc b hl, hl, hcut]

/-- **The walk that measures a leg.** -/
theorem run_measure_lay (b : Arena α) {s : Side} {x y : α}
    (h : Loop.Ends (Residual.measure T f r s) (x, v) y) (hv : f.Depth T v d) :
    Loop.run ((b.lay T r f).measure s) (x, v.val) = some y := by
  refine h.run_eq (Prod.map id Fin.val) id (fun p => ∃ e, f.Depth T p.2 e) ⟨d, hv⟩
    (fun {s₁ s₂} hs hnext => ?_) fun {s₁ y} hs hlast => ?_
  all_goals obtain ⟨e, he⟩ := hs
  · refine ⟨(measure_lay b he s s₁.1).trans (by rw [hnext]; rfl), ?_⟩
    cases he with
    | root hl => simp [Residual.measure, hl] at hnext
    | child hl up =>
      simp only [Residual.measure, hl, Sum.inl.injEq] at hnext
      subst hnext
      exact ⟨_, up⟩
  · exact (measure_lay b he s s₁.1).trans (by rw [hlast]; rfl)

/-- **The walk that sends along a leg.** -/
theorem run_pour_lay (b : Arena α) {s : Side} {x : α} {r' : Residual α n m} {f' : Forest n m}
    (h : Loop.Ends (Residual.pour T s x) (r, f, v) (r', f')) (hv : f.Depth T v d) :
    Loop.run (pour s x) (b.lay T r f, v.val) = some (b.lay T r' f') := by
  refine h.run_eq (fun (r, f, v) => (b.lay T r f, v.val)) (fun (r, f) => b.lay T r f)
    (fun (_, g, u) => ∃ e, g.Depth T u e) ⟨d, hv⟩
    (fun {s₁ s₂} hs hnext => ?_) fun {s₁ y} hs hlast => ?_
  all_goals obtain ⟨e, he⟩ := hs
  · refine ⟨(pour_lay b he s x).trans (by rw [hnext]; rfl), ?_⟩
    cases he with
    | root hl => simp [Residual.pour, hl] at hnext
    | child hl up =>
      simp only [Residual.pour, hl, Sum.inl.injEq] at hnext
      subst hnext
      dsimp only
      -- the node that is cut off is deeper than its parent, to which the walk moves on
      split
      · exact ⟨_, up.orphanFront (.child hl up) (Nat.lt_succ_self _)⟩
      · exact ⟨_, up⟩
  · exact (pour_lay b he s x).trans (by rw [hlast]; rfl)

/-- The walks of an augmentation, one after the other. -/
theorem augment_of_augments (b : Arena α) {bridge : Arc m} {amount : α} {r' : Residual α n m}
    {f' : Forest n m} {e : Nat} (h : r.Augments T f bridge (amount, r', f'))
    (htail : f.Depth T (T.tail bridge) d) (hhead : f.Depth T (T.head bridge) e)
    (hstill : ∀ {r₁ : Residual α n m} {f₁ : Forest n m}, Loop.Ends (Residual.pour T .source amount)
      (r.push bridge amount, f, T.tail bridge) (r₁, f₁) → f₁.Depth T (T.head bridge) e) :
    (b.lay T r f).augment bridge.number = some (lay
      { b with
        stats := { b.stats with augmentations := b.stats.augmentations + 1 }
        events := .augmented amount bridge.number (T.tail bridge) (T.head bridge) :: b.events }
      T r' f') := by
  obtain ⟨hmeasure, hmeasure', hpour, hpour'⟩ := h
  unfold augment
  simp only [tail_lay, head_lay, residual_lay, push_lay, Option.bind_eq_bind, Option.bind_some,
    run_measure_lay b hmeasure htail, run_measure_lay b hmeasure' hhead,
    run_pour_lay b hpour htail, run_pour_lay b hpour' (hstill hpour)]
  rfl

end Walks

/-! ## The path of a bridge -/

section Signed

variable {w : Nat} {r : Residual (Signed w) n m} {f : Forest n m} {p : Path n m}

/-- Sending along the leg of one side leaves the chains of the other as they are. -/
theorem depth_foldl_orphanFront (hp : f.Augmenting T r.support p) {S' : Support n m} {v : Fin n}
    {d : Nat} (hv : f.side? v = some .sink) (hd : f.Depth T v d) :
    ((p.source.loose T S' .source).foldl Forest.orphanFront f).Depth T v d := by
  refine hd.congr_side hp.linked hv fun u hu => ?_
  -- the nodes that have been cut off are in the tree of the source
  have hnot : u ∉ p.source.loose T S' .source := fun hloose => by
    have hsource : f.side? u = some .source := hp.side?_of_loose (s := .source) hloose
    exact absurd (hsource.symm.trans hu) (by simp)
  rw [Forest.link?_eq, Forest.place_foldl_orphanFront, if_neg hnot]
  rfl

/-- **Augmenting a path.** -/
theorem augment_lay (b : Arena (Signed w)) (hp : f.Augmenting T r.support p) :
    (b.lay T r f).augment p.bridge.number = some (lay
      { b with
        stats := { b.stats with augmentations := b.stats.augmentations + 1 }
        events := .augmented (p.bottleneck r) p.bridge.number (T.tail p.bridge) (T.head p.bridge)
          :: b.events }
      T (r.send p (p.bottleneck r)) (f.cut T (r.send p (p.bottleneck r)).support p)) := by
  obtain ⟨d, htail⟩ := hp.depth .source
  obtain ⟨e, hhead⟩ := hp.depth .sink
  refine augment_of_augments b (Residual.augments hp r) htail hhead fun hpour => ?_
  -- the walk along the first leg cuts off those nodes of it whose links are used up
  have hends := Residual.ends_pour (hp.climb .source) hp.linked (hp.nodup_leg_nodes .source)
    (hp.nodup_leg_edges .source) (fun _ _ => rfl) (r.push p.bridge (p.bottleneck r)) .source
    (p.bottleneck r)
  obtain ⟨-, rfl⟩ := Prod.mk.inj (hpour.unique hends)
  exact depth_foldl_orphanFront hp (hp.side .sink) hhead

end Signed

end Arena

end MinCut
