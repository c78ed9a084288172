import MinCut.Proofs.Arena.Program
import MinCut.Proofs.Forest.Chain
import MinCut.Proofs.Network.Sums

/-!
# Networks and forests laid out in an arena

A residual network and a forest can be laid out as records (`Arena.lay`), which is what a
snapshot shows. Whatever is looked up in them then is there, and each change of a record is
the change that it stands for. The lemmas say so for each of the small operations that a
search is made of.

An arena is laid out from another one (`b.lay T r f`), of which only the total, the counts and the
events are kept. So a step of the search that counts something, or notes an event, is the same step
on the layout from another arena, and none of the lemmas has to say what has been counted before.

A record of a node depends on the label of this node and on what is left at its terminals
(`NodeState.of_congr`). A change of one label is therefore a change of one record
(`Arena.updateNode_lay_label`), and the lemmas about attaching, marking, flagging, releasing and
cutting off are cases of this. Two forests that have the same labels and the same waiting lines are
laid out in the same way (`Arena.lay_congr`), however the lines are represented.
-/

namespace MinCut

/-! ## Lists made from lists -/

/-- Replacing an entry of a list made by a function from a list without repetitions. -/
theorem set_map_of_nodup {β γ : Type} [DecidableEq β] {l : List β} (hl : l.Nodup) {i : Nat} {b : β}
    (hb : l[i]? = some b) (φ : β → γ) (y : γ) :
    (l.map φ).set i y = l.map (Function.update φ b y) := by
  obtain ⟨hi, rfl⟩ := List.getElem?_eq_some_iff.1 hb
  refine List.ext_getElem (by simp) fun k hk hk' => ?_
  rw [List.length_set, List.length_map] at hk
  rw [List.getElem_set, List.getElem_map, List.getElem_map]
  by_cases h : i = k
  · subst h
    rw [if_pos rfl, Function.update_self]
  · have hne : l[k] ≠ l[i] := fun heq => h ((hl.getElem_inj_iff).1 heq).symm
    rw [if_neg h, Function.update_of_ne hne]

/-- **A loop over the positions of a list** that reads it on the way does what a fold over the
list does. What a step needs is an invariant of the fold. -/
theorem foldlM_range_eq {β σ τ : Type} {l : List β} {step : τ → Nat → Option τ}
    {model : σ → β → σ} (embed : σ → τ) (Inv : σ → Prop)
    (h : ∀ {s k b}, l[k]? = some b → Inv s →
      step (embed s) k = some (embed (model s b)) ∧ Inv (model s b)) {s : σ} (hs : Inv s) :
    (List.range l.length).foldlM step (embed s) = some (embed (l.foldl model s)) := by
  have key (before rest : List β) (hl : l = before ++ rest) (s : σ) (hs : Inv s) :
      (List.range' before.length rest.length).foldlM step (embed s)
        = some (embed (rest.foldl model s)) := by
    -- by induction on the rest of the list: the position is the length of what has been read
    induction rest generalizing before s with
    | nil => rfl
    | cons b rest ih =>
      have hb : l[before.length]? = some b := by
        rw [hl, List.getElem?_append_right (Nat.le_refl _), Nat.sub_self]
        rfl
      obtain ⟨hstep, hs'⟩ := h hb hs
      have hrest := ih (before ++ [b]) (by rw [hl, List.append_assoc]; rfl) _ hs'
      rw [List.length_append, List.length_singleton] at hrest
      rw [List.length_cons, List.range'_succ, List.foldlM_cons, hstep]
      exact hrest
  rw [List.range_eq_range']
  exact key [] l rfl s hs

/-- An index is found at its own position among all indices. -/
theorem getElem?_finRange {n : Nat} (v : Fin n) : (List.finRange n)[v.val]? = some v := by
  rw [List.getElem?_eq_getElem (by rw [List.length_finRange]; exact v.isLt), List.getElem_finRange]
  rfl

/-- A list made from all indices, with the indices. -/
theorem zipIdx_map_finRange {n : Nat} {γ : Type} (φ : Fin n → γ) :
    ((List.finRange n).map φ).zipIdx = (List.finRange n).map fun v => (φ v, v.val) := by
  refine List.ext_getElem (by simp) fun k _ _ => ?_
  rw [List.getElem_zipIdx, List.getElem_map, List.getElem_map, List.getElem_finRange,
    Nat.zero_add]
  rfl

/-- Arcs are numbered in the order in which they are listed. -/
theorem Arc.map_number_all (m : Nat) : (Arc.all m).map number = List.range (2 * m) := by
  have hpairs : (Arc.all m).map number
      = (List.range m).flatMap fun k => [2 * k, 2 * k + 1] := by
    unfold Arc.all
    rw [List.map_flatMap, ← List.map_coe_finRange_eq_range, List.flatMap_map]
    rfl
  rw [hpairs]
  clear hpairs
  -- the two numbers of an edge come right after those of the edges before it
  induction m with
  | zero => rfl
  | succ m ih =>
    rw [List.range_succ, List.flatMap_append, ih, Nat.mul_succ, List.range_succ, List.range_succ,
      List.append_assoc]
    rfl

/-- There are two arcs for each edge. -/
theorem Arc.length_all (m : Nat) : (Arc.all m).length = 2 * m := by
  rw [← List.length_map, map_number_all, List.length_range]

/-- An arc is found at its number. -/
theorem Arc.getElem?_all {m : Nat} (a : Arc m) : (Arc.all m)[a.number]? = some a := by
  have hlt : a.number < (Arc.all m).length := by
    rw [length_all]
    exact a.number_lt
  have hnumber : ((Arc.all m).map number)[a.number]? = some a.number := by
    rw [map_number_all, List.getElem?_range a.number_lt]
  rw [List.getElem?_map, List.getElem?_eq_getElem hlt, Option.map_some, Option.some.injEq,
    number_inj] at hnumber
  rw [List.getElem?_eq_getElem hlt, hnumber]

variable {α : Type} {n m : Nat} {T : Topology n m} {r r' : Residual α n m} {f f' : Forest n m}

/-! ## What the records show -/

/-- One forest shows what another one does: the same labels, and lines with the same nodes. -/
structure Forest.Shows (f f' : Forest n m) : Prop where
  /-- The nodes have the same labels. -/
  label (v : Fin n) : f'.label v = f.label v
  /-- The same nodes wait to be scanned, in the same order. -/
  queue : f'.queue.toList = f.queue.toList
  /-- The same orphans wait to be settled, in the same order. -/
  orphans : f'.orphans.toList = f.orphans.toList
  /-- The time is the same. -/
  time : f'.time = f.time

namespace NodeState

@[simp] theorem side_of (v : Fin n) : (of T r f v).side = f.side? v := rfl

@[simp] theorem parent_of (v : Fin n) : (of T r f v).parent = (f.link? v).map Link.parent := rfl

@[simp] theorem excess_of (v : Fin n) : (of T r f v).excess = r.excess v := rfl

@[simp] theorem stamp_of (v : Fin n) : (of T r f v).stamp = (f.label v).stamp := rfl

@[simp] theorem distance_of (v : Fin n) : (of T r f v).distance = (f.label v).distance := rfl

/-- A record shows a label, and what is left at the terminals. -/
theorem of_congr {v : Fin n} (hlabel : f'.label v = f.label v)
    (hexcess : r'.excess v = r.excess v) : of T r' f' v = of T r f v := by
  unfold of Forest.side? Forest.link?
  rw [hlabel, hexcess]

/-- The record of a node whose label has been changed. -/
theorem of_update (f : Forest n m) (v : Fin n) (change : Label m → Label m) :
    of T r (f.update v change) v = { of T r f v with
      side := (change (f.label v)).place.side?
      parent := (change (f.label v)).place.link?.map Link.parent
      stamp := (change (f.label v)).stamp
      distance := (change (f.label v)).distance
      active := (change (f.label v)).active } := by
  unfold of Forest.side? Forest.link?
  rw [Forest.label_update, if_pos rfl]

end NodeState

namespace Arena

/-- **A residual network and a forest, laid out in an arena** that is known otherwise. -/
def lay (b : Arena α) (T : Topology n m) (r : Residual α n m) (f : Forest n m) : Arena α :=
  { b with
    nodes := (List.finRange n).map (NodeState.of T r f)
    arcs := (Arc.all m).map (ArcState.of T r)
    flow := r.flow
    active := f.queue.toList.map Fin.val
    orphans := f.orphans.toList.map Fin.val
    time := f.time }

/-- Changing a node in an arena of which nothing is known but its nodes. -/
theorem updateNode_map {s : Arena α} {k i : Nat} {φ : Nat → NodeState α}
    (hs : s.nodes = (List.range k).map φ) (hi : i < k) (change : NodeState α → NodeState α) :
    s.updateNode i change
      = some { s with nodes := (List.range k).map (Function.update φ i (change (φ i))) } := by
  have hnode : s.node i = some (φ i) := by
    rw [node, hs, List.getElem?_map, List.getElem?_range hi]
    rfl
  rw [updateNode, hnode, hs]
  show some { s with nodes := ((List.range k).map φ).set i (change (φ i)) } = _
  rw [set_map_of_nodup List.nodup_range (List.getElem?_range hi)]

variable (b : Arena α)

/-- Forests that show the same are laid out in the same way. -/
theorem lay_congr (h : f.Shows f') : b.lay T r f' = b.lay T r f := by
  have hnodes : NodeState.of T r f' = NodeState.of T r f :=
    funext fun v => NodeState.of_congr (h.label v) rfl
  unfold lay
  rw [hnodes, h.queue, h.orphans, h.time]

/-! ## Looking up -/

@[simp] theorem node_lay (v : Fin n) : (b.lay T r f).node v = some (NodeState.of T r f v) := by
  show ((List.finRange n).map _)[v.val]? = _
  rw [List.getElem?_map, getElem?_finRange]
  rfl

@[simp] theorem arc_lay (a : Arc m) : (b.lay T r f).arc a.number = some (ArcState.of T r a) := by
  show ((Arc.all m).map _)[a.number]? = _
  rw [List.getElem?_map, Arc.getElem?_all]
  rfl

@[simp] theorem time_lay : (b.lay T r f).time = f.time := rfl

@[simp] theorem sister_lay (a : Arc m) : (b.lay T r f).sister a.number = some a.sister.number := by
  rw [sister, arc_lay]
  rfl

/-- An arc leads to the node that the topology says. -/
@[simp] theorem head_lay (a : Arc m) : (b.lay T r f).head a.number = some (T.head a).val := by
  rw [head, arc_lay]
  rfl

/-- It starts at the node that its sister leads to. -/
@[simp] theorem tail_lay (a : Arc m) : (b.lay T r f).tail a.number = some (T.tail a).val := by
  rw [tail, sister_lay]
  show (b.lay T r f).head a.sister.number = _
  rw [head_lay, T.head_sister]

@[simp] theorem residual_lay (a : Arc m) :
    (b.lay T r f).residual a.number = some (r.residual a) := by
  rw [residual, arc_lay]
  rfl

/-- Flow runs over a link in the direction that the side of the tree gives. -/
@[simp] theorem carrier_lay (s : Side) (a : Arc m) :
    (b.lay T r f).carrier (some s) a.number = some (s.carrier a).number := by
  cases s with
  | source => exact b.sister_lay a
  | sink => rfl

@[simp] theorem linkResidual_lay (s : Side) (a : Arc m) :
    (b.lay T r f).linkResidual (some s) a.number = some (r.residual (s.carrier a)) := by
  rw [linkResidual, carrier_lay]
  exact b.residual_lay _

/-- The arcs that leave a node are found one after the other. -/
theorem leaving_lay {v : Fin n} {k : Nat} {a : Arc m} (ha : (T.out v)[k]? = some a) :
    (b.lay T r f).leaving v k = some a.number := by
  rw [leaving, node_lay]
  show ((T.out v).map Arc.number)[k]? = _
  rw [List.getElem?_map, ha]
  rfl

/-! ## Changing nodes -/

/-- **Changing one record** gives the layout that differs in that record only. -/
theorem updateNode_lay {v : Fin n} {change : NodeState α → NodeState α}
    (hv : NodeState.of T r' f' v = change (NodeState.of T r f v))
    (hother : ∀ u, u ≠ v → NodeState.of T r' f' u = NodeState.of T r f u) :
    (b.lay T r f).updateNode v change
      = some { b.lay T r f with nodes := (List.finRange n).map (NodeState.of T r' f') } := by
  have hnodes : (b.lay T r f).nodes.set v (change (NodeState.of T r f v))
      = (List.finRange n).map (NodeState.of T r' f') := by
    show ((List.finRange n).map (NodeState.of T r f)).set v _ = _
    rw [set_map_of_nodup (List.nodup_finRange n) (getElem?_finRange v)]
    refine List.map_congr_left fun u _ => ?_
    by_cases hu : u = v
    · rw [hu, Function.update_self, hv]
    · rw [Function.update_of_ne hu, hother u hu]
  rw [updateNode, node_lay]
  show some _ = _
  rw [hnodes]

/-- **A change of a label** is a change of its record. -/
theorem updateNode_lay_label {v : Fin n} {change : NodeState α → NodeState α}
    {relabel : Label m → Label m}
    (hv : NodeState.of T r (f.update v relabel) v = change (NodeState.of T r f v)) :
    (b.lay T r f).updateNode v change = some (b.lay T r (f.update v relabel)) :=
  b.updateNode_lay hv fun u hu => NodeState.of_congr (by rw [Forest.label_update, if_neg hu]) rfl

/-- Hanging a node into a tree. -/
@[simp] theorem attach_lay (v : Fin n) (s : Side) (l : Link m) (t d : Nat) :
    (b.lay T r f).attach v (some s) l.parent t d = some (b.lay T r (f.attach v s l t d)) :=
  b.updateNode_lay_label (NodeState.of_update f v _)

/-- Noting a distance. -/
@[simp] theorem mark_lay (v : Fin n) (d : Nat) :
    (b.lay T r f).mark v d = some (b.lay T r (f.mark v d)) :=
  b.updateNode_lay_label (NodeState.of_update f v _)

/-- Setting or clearing a flag. -/
@[simp] theorem flag_lay (v : Fin n) (active : Bool) :
    (b.lay T r f).flag v active = some (b.lay T r (f.flag v active)) :=
  b.updateNode_lay_label (NodeState.of_update f v _)

/-- Queueing a node, unless it is active. -/
@[simp] theorem activate_lay (v : Fin n) :
    (b.lay T r f).activate v = some (b.lay T r (f.activate v)) := by
  unfold activate Forest.activate
  rw [node_lay]
  show (if (f.label v).active = true then _ else _) = _
  split
  · rfl
  · -- the node is the last in line, in the queue and in the list
    have hqueue : (f.queue.pushBack v).toList.map Fin.val
        = f.queue.toList.map Fin.val ++ [v.val] := by
      rw [Deque.toList_pushBack, List.map_append]
      rfl
    rw [flag_lay]
    exact congrArg (fun active => some { b.lay T r (f.flag v true) with active }) hqueue.symm

/-- Releasing a node is taking its side and its parent out of its record. -/
theorem release_lay (v : Fin n) :
    (b.lay T r f).updateNode v (fun node => { node with side := none, parent := none })
      = some (b.lay T r (f.release v)) :=
  b.updateNode_lay_label (NodeState.of_update f v _)

/-- Cutting off a node of a tree makes it an orphan in its record, and nothing else.
Its side stays, which is why it has to have one. -/
theorem sever_lay {v : Fin n} (hv : f.side? v ≠ none) :
    (b.lay T r f).sever v = some (b.lay T r (f.sever v)) := by
  refine b.updateNode_lay_label ((NodeState.of_update f v _).trans ?_)
  obtain ⟨s, hs⟩ := Option.ne_none_iff_exists'.1 hv
  obtain ⟨l, hplace⟩ := Forest.exists_place_of_side? hs
  -- the side in the record is that of the place, which a node in a tree has
  have hplace' : (f.label v).place = .tree s l := hplace
  rw [hplace']
  show _ = { NodeState.of T r f v with parent := some .orphan }
  unfold NodeState.of
  rw [hs]
  rfl

/-- The node is cut off, and is the first in the line of orphans. -/
theorem orphanFront_lay {v : Fin n} (hv : f.side? v ≠ none) :
    (b.lay T r f).orphanFront v = some (b.lay T r (f.orphanFront v)) := by
  unfold orphanFront
  rw [b.sever_lay hv]
  rfl

/-- The node is cut off, and is the last in the line of orphans. -/
theorem orphanBack_lay {v : Fin n} (hv : f.side? v ≠ none) :
    (b.lay T r f).orphanBack v = some (b.lay T r (f.orphanBack v)) := by
  unfold orphanBack
  have horphans : (f.orphans.pushBack v).toList.map Fin.val
      = f.orphans.toList.map Fin.val ++ [v.val] := by
    rw [Deque.toList_pushBack, List.map_append]
    rfl
  rw [b.sever_lay hv]
  exact congrArg (fun orphans => some { b.lay T r (f.sever v) with orphans }) horphans.symm

/-! ## Changing amounts -/

variable [Capacity α]

/-- Drawing on a terminal changes the record of the node. -/
@[simp] theorem draw_lay (s : Side) (v : Fin n) (x : α) :
    (b.lay T r f).draw s v x = some (b.lay T (r.draw s v x) f) := by
  unfold draw
  refine b.updateNode_lay ?_ fun u hu =>
    NodeState.of_congr rfl (by rw [r.excess_draw, if_neg hu])
  cases s <;>
  · unfold NodeState.of
    rw [r.excess_draw, if_pos rfl]

omit [Capacity α] in
/-- Changing an arc in an arena of which nothing is known but its arcs. -/
theorem updateArc_map {s : Arena α} {φ : Arc m → ArcState α} (hs : s.arcs = (Arc.all m).map φ)
    (a : Arc m) (change : ArcState α → ArcState α) :
    s.updateArc a.number change
      = some { s with arcs := (Arc.all m).map (Function.update φ a (change (φ a))) } := by
  have harc : s.arc a.number = some (φ a) := by
    rw [arc, hs, List.getElem?_map, Arc.getElem?_all]
    rfl
  rw [updateArc, harc, hs]
  show some { s with arcs := ((Arc.all m).map φ).set a.number (change (φ a)) } = _
  rw [set_map_of_nodup (Arc.nodup_all m) (Arc.getElem?_all a)]

/-- Pushing along an arc changes its record and that of its sister. -/
@[simp] theorem push_lay (a : Arc m) (x : α) :
    (b.lay T r f).push a.number x = some (b.lay T (r.push a x) f) := by
  unfold push
  rw [sister_lay]
  show ((b.lay T r f).updateArc a.number _ >>= fun s => s.updateArc a.sister.number _) = _
  rw [updateArc_map (s := b.lay T r f) rfl]
  show updateArc _ a.sister.number _ = _
  rw [updateArc_map rfl]
  -- the two writes are to different arcs, so that neither undoes the other
  have harcs : Function.update (Function.update (ArcState.of T r) a
        { ArcState.of T r a with residual := r.residual a - x }) a.sister
        { ArcState.of T r a.sister with residual := r.residual a.sister + x }
      = ArcState.of T (r.push a x) := by
    funext c
    by_cases hsister : c = a.sister
    · rw [hsister, Function.update_self, ArcState.of, ArcState.of, r.residual_push_sister]
    · rw [Function.update_of_ne hsister]
      by_cases ha : c = a
      · rw [ha, Function.update_self, ArcState.of, ArcState.of, r.residual_push_self]
      · rw [Function.update_of_ne ha, ArcState.of, ArcState.of, r.residual_push, if_neg ha,
          if_neg hsister]
  rw [Function.update_of_ne a.sister_ne]
  exact congrArg (fun φ => some { b.lay T r f with arcs := (Arc.all m).map φ }) harcs

end Arena

end MinCut
