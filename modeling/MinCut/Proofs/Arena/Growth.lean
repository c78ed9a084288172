import MinCut.Proofs.Arena.Layout
import MinCut.Proofs.Forest.Loops
import MinCut.Proofs.Residual.Walk

/-!
# Growing the trees of an arena

Before the search all nodes with capacity left at a terminal are made roots, one after the
other (`Arena.plantAll_lay`). Then the node to be scanned is taken off the queue and its arcs
are followed (`Arena.select_lay`, `Arena.grow_lay`). In an arena this does what it does to
the forest laid out there, from any forest whatsoever: the numbers in a record are those of
nodes and arcs that exist.

Making roots is a pass over the nodes, and in its middle the arena shows a forest in which only the
nodes up to some number have been looked at (`Forest.begun`). A scan is a recursion over the arcs
that leave a node, and `Arena.scan_lay` is an induction on those that are still to be followed. In
both cases there is no invariant of the forest to be kept, since no lookup depends on one.
-/

namespace MinCut

/-! ## Roots -/

namespace Forest

variable {n m : Nat} {S : Support n m} {v : Fin n}

/-- The forest before the search, as far as the first `k` nodes go. -/
def begun (S : Support n m) (k : Nat) : Forest n m where
  labels := Vector.ofFn fun v => if v.val < k then (initial S).label v else ⟨.free, 0, 0, false⟩
  queue := .ofList (((List.finRange n).take k).filter fun v => (S.terminal v).isSome)
  orphans := .empty
  time := 0

/-- The label of a node is the one it gets if it has been looked at, and the old one if not. -/
theorem label_begun (S : Support n m) (k : Nat) (v : Fin n) : (begun S k).label v
      = if v.val < k then (initial S).label v else ⟨.free, 0, 0, false⟩ :=
  get_ofFn _ v

/-- The next node has not been looked at. -/
theorem label_begun_self (S : Support n m) (v : Fin n) :
    (begun S v).label v = ⟨.free, 0, 0, false⟩ := by
  rw [label_begun, if_neg (Nat.lt_irrefl _)]

/-- The next node gets its label. -/
theorem label_begun_succ (S : Support n m) (v u : Fin n) :
    (begun S (v + 1)).label u = if u = v then (initial S).label v else (begun S v).label u := by
  rw [label_begun, label_begun]
  by_cases hu : u = v
  · rw [hu, if_pos rfl, if_pos (Nat.lt_succ_self _)]
  · have hne : u.val ≠ v.val := fun h => hu (Fin.ext h)
    rw [if_neg hu]
    exact if_congr (by omega) rfl rfl

/-- The next node is queued if it is a root. -/
theorem queue_begun_succ (S : Support n m) (v : Fin n) : (begun S (v + 1)).queue.toList
      = (begun S v).queue.toList ++ if (S.terminal v).isSome then [v] else [] := by
  show (Deque.ofList _).toList = (Deque.ofList _).toList ++ _
  rw [Deque.toList_ofList, Deque.toList_ofList, List.take_add_one, List.filter_append,
    getElem?_finRange, Option.toList_some, List.filter_singleton]
  cases (S.terminal v).isSome <;> rfl

/-- No node has been looked at in the beginning. -/
theorem begun_zero (S : Support n m) : (begun S 0).Shows { bare n m with
    queue := .empty, orphans := .empty, time := 0 } where
  label u := by
    rw [label_begun, if_neg (Nat.not_lt_zero _)]
    exact Vector.getElem_replicate u.isLt
  queue := rfl
  orphans := rfl
  time := rfl

/-- In the end all have been. -/
theorem begun_all (S : Support n m) : (initial S).Shows (begun S n) where
  label u := by rw [label_begun, if_pos u.isLt]
  queue := by
    show (Deque.ofList _).toList = (Deque.ofList _).toList
    rw [List.take_of_length_le (by rw [List.length_finRange])]
  orphans := rfl
  time := rfl

/-- Its flag is clear already. -/
theorem label_flag_begun (S : Support n m) (v : Fin n) :
    ((begun S v).flag v false).label v = ⟨.free, 0, 0, false⟩ := by
  rw [label_flag, if_pos rfl, label_begun_self]

/-- A node with capacity left at a terminal becomes a root, and active. -/
theorem begun_root {s : Side} (hv : S.terminal v = some s) : (begun S (v + 1)).Shows
    ((((begun S v).flag v false).attach v s .terminal 0 1).activate v) := by
  let f := ((begun S v).flag v false).attach v s .terminal 0 1
  -- the node is not active yet, so that it is queued
  have hidle : f.label v = ⟨.tree s .terminal, 0, 1, false⟩ := by
    rw [label_attach, if_pos rfl, label_flag_begun]
  have hqueue : (f.activate v).queue = (begun S v).queue.pushBack v := by
    rw [activate, if_neg (by rw [hidle]; exact Bool.false_ne_true)]
    rfl
  refine ⟨fun u => ?_, ?_, congrArg Deque.toList (orphans_activate f v), time_activate f v⟩
  · rw [label_activate, label_begun_succ]
    by_cases hu : u = v
    · rw [if_pos hu, if_pos hu, hidle, label_initial_of_some hv]
    · rw [if_neg hu, if_neg hu, label_attach, if_neg hu, label_flag, if_neg hu]
  · rw [queue_begun_succ, hv]
    exact (congrArg Deque.toList hqueue).trans (Deque.toList_pushBack _ _)

/-- A node without is free. -/
theorem begun_free (hv : S.terminal v = none) : (begun S (v + 1)).Shows
    (((begun S v).flag v false).update v fun l => { l with place := .free, stamp := 0 }) := by
  refine ⟨fun u => ?_, ?_, rfl, rfl⟩
  · rw [label_update, label_begun_succ, label_flag_begun, label_initial_of_none hv, label_flag]
    by_cases hu : u = v
    · rw [if_pos hu, if_pos hu]
    · rw [if_neg hu, if_neg hu, if_neg hu]
  · rw [queue_begun_succ, hv]
    exact (List.append_nil _).symm

end Forest

namespace Arena

section Planting

variable {α : Type} [Capacity α] {n m : Nat} {T : Topology n m} {r : Residual α n m}

/-- Making a node a root of a tree. -/
theorem attach_begun_lay (b : Arena α) {v : Fin n} {s : Side}
    (hv : r.support.terminal v = some s) :
    ((b.lay T r ((Forest.begun r.support v).flag v false)).attach v (some s) .terminal 0 1
        >>= fun t => t.activate v)
      = some (b.lay T r (.begun r.support (v + 1))) := by
  rw [show Parent.terminal = (Link.terminal : Link m).parent from rfl, attach_lay]
  show (b.lay T r _).activate v = _
  rw [activate_lay, b.lay_congr (Forest.begun_root hv)]

/-- **Making a node a root** or leaving it free. -/
theorem plant_lay (b : Arena α) (v : Fin n) : (b.lay T r (.begun r.support v)).plant v
      = some (b.lay T r (.begun r.support (v + 1))) := by
  -- the amount at the node decides in the same order which terminal it has
  have hterminal : r.support.terminal v = if 0 < r.excess v then some .source
      else if r.excess v < 0 then some .sink else none := rfl
  unfold plant
  rw [flag_lay]
  show (Option.bind (node _ v) _) = _
  rw [node_lay]
  show (if 0 < r.excess v then _ else if r.excess v < 0 then _ else _) = _
  by_cases hpos : 0 < r.excess v
  · rw [if_pos hpos] at hterminal ⊢
    exact attach_begun_lay b hterminal
  · rw [if_neg hpos] at hterminal ⊢
    by_cases hneg : r.excess v < 0
    · rw [if_pos hneg] at hterminal ⊢
      exact attach_begun_lay b hterminal
    · rw [if_neg hneg] at hterminal ⊢
      rw [updateNode_lay_label b (NodeState.of_update _ v fun l =>
        { l with place := .free, stamp := 0 }), b.lay_congr (Forest.begun_free hterminal)]

/-- **Making all nodes roots that have capacity left** gives the forest before the search. -/
theorem plantAll_lay (b : Arena α) :
    (b.lay T r (.bare n m)).plantAll = some (b.lay T r (.initial r.support)) := by
  -- by induction on the number of nodes that have been looked at
  have hnodes (k : Nat) (hk : k ≤ n) :
      (List.range k).foldlM plant (b.lay T r (.begun r.support 0))
        = some (b.lay T r (.begun r.support k)) := by
    induction k with
    | zero => rfl
    | succ k ih =>
      rw [List.range_succ, List.foldlM_append, ih (Nat.le_of_succ_le hk)]
      show plant _ k >>= _ = _
      rw [plant_lay b ⟨k, hk⟩]
      rfl
  have hlength : (b.lay T r (.bare n m)).nodes.length = n :=
    (List.length_map _).trans List.length_finRange
  unfold plantAll
  rw [hlength]
  show (List.range n).foldlM plant (b.lay T r { Forest.bare n m with
    queue := .empty, orphans := .empty, time := 0 }) = _
  rw [b.lay_congr (Forest.begun_zero r.support), hnodes n (Nat.le_refl n),
    b.lay_congr (Forest.begun_all r.support)]

end Planting

section Selecting

variable {α : Type} {n m : Nat} {T : Topology n m} {r : Residual α n m}

/-- **Taking a node off the queue.** -/
theorem poll_lay (b : Arena α) (f : Forest n m) : (b.lay T r f).poll
      = some (f.poll.map (b.lay T r) (Prod.map (Option.map Fin.val) (b.lay T r))) := by
  unfold poll Forest.poll
  cases hpop : f.queue.popFront? with
  | none =>
    have hactive : (b.lay T r f).active = [] :=
      congrArg (List.map Fin.val) (Deque.popFront?_eq_none_iff.1 hpop)
    rw [hactive]
    rfl
  | some popped =>
    obtain ⟨v, queue⟩ := popped
    have hactive : (b.lay T r f).active = v.val :: queue.toList.map Fin.val :=
      congrArg (List.map Fin.val) (Deque.toList_of_popFront? hpop)
    rw [hactive]
    show (flag (b.lay T r { f with queue }) v false >>= _) = _
    rw [flag_lay]
    show ((b.lay T r (f.dequeue v queue)).node v >>= _) = _
    rw [node_lay]
    show some (if ((f.dequeue v queue).side? v).isSome then _ else _) = _
    dsimp only
    split <;> rfl

/-- **The next active node.** -/
theorem run_poll_lay (b : Arena α) (f : Forest n m) : Loop.run poll (b.lay T r f)
      = some (f.nextActive.map (Option.map Fin.val) (b.lay T r)) := by
  refine f.ends_poll.run_eq (b.lay T r) (Prod.map (Option.map Fin.val) (b.lay T r))
    (fun _ => True) trivial (fun _ hg => ⟨?_, trivial⟩) fun _ hg => ?_
  all_goals
    rw [poll_lay, hg]
    rfl

/-- **The node to be scanned.** -/
theorem select_lay (b : Arena α) (f : Forest n m) (current : Option (Fin n)) :
    (b.lay T r f).select (current.map Fin.val)
      = some ((f.select current).map (Option.map Fin.val) (b.lay T r)) := by
  cases current with
  | none => exact run_poll_lay b f
  | some v =>
    show ((b.lay T r f).flag v false >>= _) = _
    rw [flag_lay]
    show ((b.lay T r (f.flag v false)).node v >>= _) = _
    rw [node_lay]
    unfold Forest.select
    show (if ((f.flag v false).side? v).isSome then _ else _) = _
    dsimp only
    split
    · rfl
    · exact run_poll_lay b (f.flag v false)

end Selecting

section Growing

variable {n m w : Nat} {T : Topology n m} {r : Residual (Signed w) n m}

/-- **Following the arcs that leave a node**, from some position on. -/
theorem scan_lay (b : Arena (Signed w)) {v : Fin n} (s : Side) (stamp distance : Nat)
    (rest before : List (Arc m)) (hout : T.out v = before ++ rest) (f : Forest n m) :
    scan v s stamp distance (List.range' before.length rest.length) (b.lay T r f)
      = some ((f.scan T r.support s stamp distance rest).map (Option.map Arc.number)
        (b.lay T r)) := by
  induction rest generalizing before f with
  | nil => rfl
  | cons a rest ih =>
    have ha : (T.out v)[before.length]? = some a := by
      rw [hout, List.getElem?_append_right (Nat.le_refl _), Nat.sub_self]
      rfl
    -- what is known of the arcs after this one, from the next position on
    have hrest := ih (before ++ [a]) (by rw [hout, List.append_assoc]; rfl)
    rw [List.length_append, List.length_singleton] at hrest
    -- the amount that is read is the one left in the direction in which the tree grows
    have hamount : (b.lay T r f).outward s a.number a.sister.number
        = some (r.residual (s.carrier a.sister)) := by
      unfold outward
      cases s <;> simp
    rw [List.length_cons, List.range'_succ, scan, leaving_lay b ha]
    show ((b.lay T r f).sister a.number >>= _) = _
    rw [sister_lay]
    show ((b.lay T r f).outward s a.number a.sister.number >>= _) = _
    rw [hamount]
    show (if r.residual (s.carrier a.sister) ≤ 0 then _ else _) = _
    unfold Forest.scan
    -- an arc over which nothing can run is passed over
    by_cases hdead : r.residual (s.carrier a.sister) ≤ 0
    · rw [if_pos hdead, hrest, if_neg (by rw [Residual.residual_le_zero_iff.1 hdead]; simp)]
    · have hlive : r.support.live s a.sister = true := by
        rw [← Bool.not_eq_false]
        exact mt Residual.residual_le_zero_iff.2 hdead
      have hnode : (NodeState.of T r f (T.head a)).side = f.side? (T.head a) := rfl
      rw [if_neg hdead, if_pos hlive, head_lay]
      show ((b.lay T r f).node (T.head a) >>= _) = _
      rw [node_lay, Option.bind_eq_bind, Option.bind_some, hnode]
      -- a free node is attached and queued, and a node of the other tree ends the scan
      cases hside : f.side? (T.head a) with
      | none =>
        show ((b.lay T r f).attach (T.head a) (some s) (Link.arc a.sister).parent stamp
          (distance + 1) >>= _) = _
        rw [attach_lay]
        show ((b.lay T r _).activate (T.head a) >>= _) = _
        rw [activate_lay]
        exact hrest _
      | some other =>
        dsimp only
        split
        · exact hrest f
        · cases s <;> simp

/-- **Scanning a node.** -/
theorem grow_lay (b : Arena (Signed w)) (f : Forest n m) (v : Fin n) : (b.lay T r f).grow v
      = some ((f.grow T r.support v).map (Option.map Arc.number) (b.lay T r)) := by
  have hnode : (NodeState.of T r f v).side = (f.label v).place.side? := rfl
  unfold grow Forest.grow
  rw [node_lay, Option.bind_eq_bind, Option.bind_some, hnode]
  cases (f.label v).place with
  | free => rfl
  | tree s _ =>
    show scan v s (f.label v).stamp (f.label v).distance
      (List.range ((T.out v).map Arc.number).length) (b.lay T r f) = _
    rw [List.length_map, List.range_eq_range']
    exact scan_lay b s _ _ (T.out v) [] rfl f

end Growing

end Arena

end MinCut
