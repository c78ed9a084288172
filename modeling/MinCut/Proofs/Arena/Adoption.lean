import MinCut.Proofs.Arena.Layout
import MinCut.Proofs.Forest.Loops
import MinCut.Proofs.Residual.Walk

/-!
# Adopting orphans in an arena

Two things could go wrong in an adoption pass. The chain of a node could go round in
circles, which it does not by the invariant of the trees, and the distance that is noted
on the second way up could be counted down below zero. It is the depth of the node at which
the walk has arrived, and no depth is zero (`Arena.note_lay`). The rest of a pass looks up
what is there, so that it does to an arena what it does to the forest laid out there
(`Arena.run_round_lay`).

The chain of a node is walked twice (`Arena.trace_lay`). Both walks are loops without a bound in an
arena, while the forest is walked with one, and `Loop.Ends.run_eq` carries the one over to the other
as long as an invariant holds: none for the first walk, which only reads, and for the second that
the node has the distance that is counted (`Arena.run_note_lay`).

A pass is another such loop, with the invariant of the pass. One round of it looks for a parent in a
fold over the arcs of the orphan (`Arena.bestParent_lay`) and releases the orphan in another one
(`Arena.expel_lay`), and both folds are over positions in a list and read the list on the way
(`foldlM_range_eq`).
-/

namespace MinCut

variable {n m : Nat} {T : Topology n m}

namespace Forest

variable {f : Forest n m} {v : Fin n} {d : Nat}

/-- No depth is zero, since a root has depth one. -/
theorem Depth.pos (h : f.Depth T v d) : 0 < d := by
  cases h <;> exact Nat.succ_pos _

/-- The first way up a chain notes no more than the distance of a root. -/
theorem alike_of_probe {s : Fin n × Nat} {out : Option Nat × Forest n m}
    (h : Loop.Ends (f.probe T) s out) : Alike f out.2 := by
  -- only the last step of the walk notes anything
  induction h with
  | @last s out h =>
    unfold probe at h
    dsimp only at h
    split at h
    · rw [← Sum.inr.inj h]
      exact .refl f
    · split at h
      · rw [← Sum.inr.inj h]
        exact .mark f _ 1
      · cases h
      · rw [← Sum.inr.inj h]
        exact .refl f
  | next _ _ ih => exact ih

end Forest

namespace Arena

section Tracing

variable {α : Type} {r : Residual α n m} {f : Forest n m} {v : Fin n} {d : Nat}

/-- **Counting a link.** -/
theorem probe_lay (b : Arena α) (f : Forest n m) (v : Fin n) (count : Nat) :
    (b.lay T r f).probe (v, count)
      = some ((f.probe T (v, count)).map (Prod.map Fin.val id) (Prod.map id (b.lay T r))) := by
  by_cases hnow : (f.label v).stamp = f.time
  · simp [probe, Forest.probe, hnow]
  · cases hl : f.link? v with
    | none => simp [probe, Forest.probe, hnow, hl]
    | some l => cases l <;> simp [probe, Forest.probe, hnow, hl, Link.parent]

/-- **Noting a distance** other than zero. -/
theorem note_lay (b : Arena α) (f : Forest n m) (v : Fin n) (hd : 0 < d) :
    note (b.lay T r f, v, d) = some ((Forest.note T (f, v, d)).map
      (fun (f, v, d) => (b.lay T r f, v.val, d)) (b.lay T r)) := by
  have hlink : (f.mark v d).link? v = f.link? v := congrArg Place.link? (f.place_mark v v d)
  by_cases hnow : (f.label v).stamp = f.time
  · simp [note, Forest.note, hnow]
  · cases hl : f.link? v with
    | none => simp [note, Forest.note, hnow, hlink, hl, hd, guard]
    | some l => cases l <;> simp [note, Forest.note, hnow, hlink, hl, hd, guard, Link.parent]

/-- The first way up a chain. -/
theorem run_probe_lay (b : Arena α) {out : Option Nat × Forest n m}
    (h : Loop.Ends (f.probe T) (v, 0) out) :
    Loop.run (b.lay T r f).probe (v.val, 0) = some (out.map id (b.lay T r)) := by
  refine h.run_eq (Prod.map Fin.val id) (Prod.map id (b.lay T r)) (fun _ => True) trivial
    (fun {s _} _ hnext => ⟨?_, trivial⟩) fun {s _} _ hlast => ?_
  · exact (probe_lay b f s.1 s.2).trans (by rw [hnext]; rfl)
  · exact (probe_lay b f s.1 s.2).trans (by rw [hlast]; rfl)

/-- The second way up a chain. -/
theorem run_note_lay (b : Arena α) {f' : Forest n m}
    (h : Loop.Ends (Forest.note T) (f, v, d) f') (hd : f.Depth T v d) :
    Loop.run note (b.lay T r f, v.val, d) = some (b.lay T r f') := by
  refine h.run_eq (fun (f, v, d) => (b.lay T r f, v.val, d)) (b.lay T r)
    (fun (g, u, e) => g.Depth T u e) hd (fun {s _} hs hnext => ⟨?_, ?_⟩) fun {s _} hs hlast => ?_
  · exact (note_lay b s.1 s.2.1 hs.pos).trans (by rw [hnext]; rfl)
  · obtain ⟨a, hlink, rfl⟩ := Forest.note_eq_inl hnext
    obtain ⟨e, he, hparent⟩ := hs.parent hlink
    rw [he]
    exact (Forest.Alike.mark _ _ _).depth hparent
  · exact (note_lay b s.1 s.2.1 hs.pos).trans (by rw [hlast]; rfl)

/-- **The distance of a node.** -/
theorem trace_lay (b : Arena α) {S : Support n m} (hl : f.Linked T S) (hs : f.Stamped T)
    (hv : f.side? v ≠ none) :
    (b.lay T r f).trace v = some ((f.trace T n v).map id (b.lay T r)) := by
  obtain ⟨-, -, hdepth⟩ := Forest.trace_spec hl hs n hv
  have htraces := Forest.traces_trace hl hs hv
  generalize Forest.trace T n f v = out at hdepth htraces ⊢
  unfold trace
  -- the first walk has lost its way, or has found a distance for the second to note
  cases htraces with
  | lost hprobe =>
    rw [run_probe_lay b hprobe]
    rfl
  | @found g h d hprobe hnote =>
    have hd : g.Depth T v d := (Forest.alike_of_probe hprobe).depth (hdepth d rfl)
    rw [run_probe_lay b hprobe]
    show (Loop.run note (b.lay T r g, v.val, d) >>= _) = _
    rw [run_note_lay b hnote hd]
    rfl

end Tracing

section Settling

variable {w : Nat} {r : Residual (Signed w) n m} {f : Forest n m} {v : Fin n} {k : Nat} {a : Arc m}
variable {s : Side}

/-- A forest under repair with a candidate for a parent, laid out. -/
def layWeighed (b : Arena (Signed w)) (T : Topology n m) (r : Residual (Signed w) n m) :
    Forest n m × Option (Arc m × Nat) → Arena (Signed w) × Option (Nat × Nat) :=
  Prod.map (b.lay T r) (Option.map (Prod.map Arc.number id))

/-- Candidates are compared by their distances. -/
theorem nearer_map (best : Option (Arc m × Nat)) (a : Arc m) (d : Nat) :
    nearer (best.map (Prod.map Arc.number id)) a.number d
      = (Forest.nearer best a d).map (Prod.map Arc.number id) := by
  cases best with
  | none => rfl
  | some old =>
    show (if d < old.2 then _ else _) = (if d < old.2 then _ else _ : Option _).map _
    split <;> rfl

/-- **Weighing a parent.** -/
theorem weigh_lay (b : Arena (Signed w)) {S : Support n m} (hl : f.Linked T S) (hs : f.Stamped T)
    (ha : (T.out v)[k]? = some a) (best : Option (Arc m × Nat)) :
    weigh v (some s) (b.layWeighed T r (f, best)) k
      = some (b.layWeighed T r (Forest.weigh T r.support s (f, best) a)) := by
  have hlive : r.residual (s.carrier a) ≤ 0 ↔ ¬r.support.live s a = true := by
    rw [Residual.residual_le_zero_iff, Bool.not_eq_true]
  unfold weigh Forest.weigh layWeighed
  -- an arc over which nothing can run is passed over, and so is a node that is not in the tree
  by_cases hlv : r.support.live s a = true
  · by_cases hside : f.side? (T.head a) = some s
    · have htrace := trace_lay (r := r) b hl hs (by rw [hside]; exact Option.some_ne_none s)
      simp only [leaving_lay b ha, linkResidual_lay, hlive, hlv, head_lay, node_lay, hside, htrace,
        Prod.map_apply, NodeState.side_of, Option.bind_eq_bind, Option.bind_some, not_true,
        if_false, and_self, if_true, ne_eq]
      obtain ⟨d?, g⟩ := Forest.trace T n f (T.head a)
      cases d? with
      | none => rfl
      | some d => exact congrArg (fun best => some (b.lay T r g, best)) (nearer_map best a d)
    · simp [leaving_lay b ha, hlv, hside]
  · simp [leaving_lay b ha, hlive, hlv]

/-- Queueing a node if flow could run. -/
theorem rouse_lay {α : Type} {r : Residual α n m} (b : Arena α) (f : Forest n m) (v : Fin n)
    (live : Bool) :
    (b.lay T r f).rouse v live = some (b.lay T r (if live then f.activate v else f)) := by
  unfold rouse
  split
  · exact activate_lay b v
  · rfl

/-- **What releasing a node means for another.** -/
theorem estrange_lay (b : Arena (Signed w)) (f : Forest n m) (s : Side)
    (ha : (T.out v)[k]? = some a) :
    estrange v (some s) (b.lay T r f) k = some (b.lay T r (f.estrange T r.support s v a)) := by
  unfold estrange Forest.estrange
  by_cases hside : f.side? (T.head a) = some s
  · have hlive : decide (0 < r.residual (s.carrier a)) = r.support.live s a := rfl
    simp only [leaving_lay b ha, head_lay, node_lay, NodeState.side_of, hside, linkResidual_lay,
      rouse_lay, hlive, Option.bind_eq_bind, Option.bind_some, ne_eq, not_true, if_false, if_true]
    -- queueing the node leaves its side and its link as they are
    have hside' : (if r.support.live s a then f.activate (T.head a) else f).side? (T.head a)
        = some s := by
      split
      · exact (f.side?_activate _ _).trans hside
      · exact hside
    generalize (if r.support.live s a then f.activate (T.head a) else f) = g at hside' ⊢
    have htree : g.side? (T.head a) ≠ none := by
      rw [hside']
      exact Option.some_ne_none s
    have horphan := orphanBack_lay (T := T) (r := r) b htree
    -- only a child of the released node is cut off
    cases hl : g.link? (T.head a) with
    | none => simp [hl]
    | some l =>
      cases l with
      | terminal | orphan => simp [hl, Link.parent]
      | arc up =>
        by_cases hup : T.head up = v
        · simp [hl, Link.parent, hup, horphan]
        · simp [hl, Link.parent, hup, Fin.val_ne_of_ne hup]
  · simp [leaving_lay b ha, hside]

/-- A node that has capacity left at the terminal of its tree. -/
theorem isRooted_of (hv : f.side? v = some s) :
    isRooted (NodeState.of T r f v) = decide (r.support.terminal v = some s) := by
  unfold isRooted
  rw [NodeState.side_of, hv, NodeState.excess_of]
  cases s with
  | source =>
    refine decide_eq_decide.2 ?_
    rw [Residual.terminal_support_source_iff, Signed.lt_iff, Signed.toInt_zero]
  | sink =>
    refine decide_eq_decide.2 ?_
    rw [Residual.terminal_support_sink_iff, Signed.lt_iff, Signed.toInt_zero]

/-- A forest under repair, laid out in an arena with what had happened before. -/
def layRepair (b : Arena (Signed w)) (T : Topology n m) (r : Residual (Signed w) n m)
    (R : Repair n m) : Arena (Signed w) :=
  lay
    { b with
      stats := { b.stats with
        adopted := b.stats.adopted + R.adopted
        expelled := b.stats.expelled + R.expelled.length }
      events := R.expelled.map (fun v => .expelled v) ++ b.events }
    T r R.forest

/-- **Looking for a parent.** -/
theorem bestParent_lay (b : Arena (Signed w)) (hl : f.Linked T r.support) (hs : f.Stamped T)
    (v : Fin n) (s : Side) :
    (List.range ((T.out v).map Arc.number).length).foldlM (weigh v (some s)) (b.lay T r f, none)
      = some (b.layWeighed T r (f.bestParent T r.support s v)) := by
  rw [List.length_map]
  refine foldlM_range_eq (b.layWeighed T r) (Forest.Weighed T r.support v s f)
    (fun {state k a} ha h => ⟨?_, ?_⟩) (.nil hs)
  · exact weigh_lay b (hl.of_place h.alike.place) h.stamped ha state.2
  · exact h.weigh hl (Topology.mem_out.1 (List.mem_of_getElem? ha))

/-- **Releasing an orphan.** -/
theorem expel_lay (b : Arena (Signed w)) (f : Forest n m) (v : Fin n) (s : Side) :
    (b.lay T r f).expel v (some s) = some (lay
      { b with
        stats := { b.stats with expelled := b.stats.expelled + 1 }
        events := .expelled v :: b.events }
      T r (f.expel T r.support s v)) := by
  have hfold : (List.range ((T.out v).map Arc.number).length).foldlM (estrange v (some s))
      (b.lay T r f) = some (b.lay T r ((T.out v).foldl (Forest.estrange T r.support s v) f)) := by
    rw [List.length_map]
    exact foldlM_range_eq (b.lay T r) (fun _ => True)
      (fun ha _ => ⟨estrange_lay b _ s ha, trivial⟩) trivial
  unfold expel
  rw [node_lay]
  show (List.foldlM (estrange v (some s)) (b.lay T r f)
    (List.range ((T.out v).map Arc.number).length) >>= _) = _
  rw [hfold]
  show (updateNode _ v _ >>= _) = _
  rw [release_lay]
  rfl

/-- **Settling an orphan.** -/
theorem settle_lay (b : Arena (Signed w)) {R : Repair n m} (hl : R.forest.Linked T r.support)
    (hs : R.forest.Stamped T) (hv : R.forest.side? v = some s) :
    (b.layRepair T r R).settle v = some (b.layRepair T r (R.settle T r.support s v)) := by
  obtain ⟨f, adopted, expelled⟩ := R
  unfold layRepair
  -- what has been counted and told before is of no concern to the orphan
  generalize hb : ({ b with
      stats := { b.stats with
        adopted := b.stats.adopted + adopted
        expelled := b.stats.expelled + expelled.length }
      events := expelled.map (fun v => .expelled v) ++ b.events } : Arena (Signed w)) = b'
  unfold settle Repair.settle
  rw [node_lay]
  show (if isRooted (NodeState.of T r f v) then _ else _) = _
  rw [isRooted_of hv]
  simp only [NodeState.side_of, show f.side? v = some s from hv]
  -- the orphan is a root again, or it looks for a parent
  by_cases hterminal : r.support.terminal v = some s
  · rw [if_pos (decide_eq_true hterminal), if_pos hterminal,
      show Parent.terminal = (Link.terminal : Link m).parent from rfl]
    show ((b'.lay T r f).attach v (some s) Link.terminal.parent f.time 1 >>= _) = _
    rw [attach_lay, ← hb]
    rfl
  · rw [if_neg (by simpa using hterminal), if_neg hterminal]
    show (List.foldlM (weigh v (some s)) (b'.lay T r f, none)
      (List.range ((T.out v).map Arc.number).length) >>= _) = _
    rw [bestParent_lay b' hl hs v s]
    obtain ⟨g, best⟩ := f.bestParent T r.support s v
    -- there is no parent to be found, or there is a nearest one
    cases best with
    | none =>
      show (b'.lay T r g).expel v (some s) = _
      rw [expel_lay, ← hb]
      rfl
    | some candidate =>
      obtain ⟨a, d⟩ := candidate
      show ((b'.lay T r g).attach v (some s) (Link.arc a).parent g.time (d + 1) >>= _) = _
      rw [attach_lay, ← hb]
      rfl

/-- **One round of a pass.** -/
theorem round_lay (b : Arena (Signed w)) {R : Repair n m} {current : Option (Fin n)}
    (hR : R.forest.Mending T r.support current none) : (b.layRepair T r R).round
      = some ((R.round T r.support).toSum.map (b.layRepair T r) (b.layRepair T r)) := by
  unfold round
  -- there are no orphans left, or the first of them is settled, which is an orphan still
  rcases Repair.round_cases hR with ⟨hpop, hround⟩
    | ⟨v, s, orphans, hpop, hplace, hheld, -, hround⟩
  · have horphans : (b.layRepair T r R).orphans = [] :=
      congrArg (List.map Fin.val) (Deque.popFront?_eq_none_iff.1 hpop)
    rw [horphans, hround]
    rfl
  · have horphans : (b.layRepair T r R).orphans = v.val :: orphans.toList.map Fin.val :=
      congrArg (List.map Fin.val) (Deque.toList_of_popFront? hpop)
    let held : Repair n m := { R with forest := { R.forest with orphans } }
    have hnode : (b.layRepair T r held).node v = some (.of T r held.forest v) := node_lay _ v
    have hparent : (NodeState.of T r held.forest v).parent = some .orphan :=
      congrArg (Option.map Link.parent) (Forest.link?_of_place hplace)
    have hsettle : (b.layRepair T r held).settle v
        = some (b.layRepair T r (held.settle T r.support s v)) :=
      settle_lay b hheld.linked hheld.stamped (Forest.side?_of_place hplace)
    rw [horphans, hround]
    show ((b.layRepair T r held).node v >>= _) = _
    rw [hnode]
    show (if (NodeState.of T r held.forest v).parent = some .orphan then _ else _) = _
    rw [if_pos hparent]
    show ((b.layRepair T r held).settle v >>= _) = _
    rw [hsettle]
    rfl

/-- **An adoption pass.** -/
theorem run_round_lay (b : Arena (Signed w)) {R : Repair n m} {current : Option (Fin n)}
    (hR : R.forest.Mending T r.support current none) :
    Loop.run round (b.layRepair T r R) = some (b.layRepair T r (R.run T r.support)) := by
  refine (Repair.ends_round T r.support R).run_eq (b.layRepair T r) (b.layRepair T r)
    (fun R => R.forest.Mending T r.support current none) hR (fun {R R'} hR hnext => ⟨?_, ?_⟩)
    fun {R R'} hR hlast => ?_
  · rw [round_lay b hR, hnext]
    rfl
  · exact (Repair.round_mending hR (Turn.toSum_eq_inl_iff.1 hnext)).1
  · rw [round_lay b hR, hlast]
    rfl

end Settling

end Arena

end MinCut
