import MinCut.Proofs.Forest.Adoption
import MinCut.Proofs.Forest.Cut
import MinCut.Proofs.Forest.Scanning

/-!
# What is taken off the queue and what joins it

Active nodes leave the queue at the front, when a node is selected, and join it at the back,
when nodes are scanned and orphans adopted. No step does both. Selecting takes nodes off until
one is in a tree, and drops the free ones among them (`Forest.Polled`). A scan or an adoption
pass queues some nodes (`Forest.Queued`), none of which has waited before.

Flags are cleared and set together with that. The exception is the current node, whose flag is
set though it is not queued. Selecting clears this flag as well.
-/

namespace MinCut

variable {n m : Nat} {T : Topology n m} {S : Support n m}

namespace Forest

variable {f g h : Forest n m} {current found : Option (Fin n)} {on on' off : List (Fin n)}
variable {u v : Fin n} {s : Side}

/-! ## Taking nodes off

Selecting a node takes some nodes off the front of the queue and clears their flags. Those that are
free are dropped, and the one that is in a tree is selected. -/

/-- **Some nodes have been taken off the queue** in order to select one, when there was the
current node given. -/
structure Polled (f : Forest n m) (current : Option (Fin n)) (off : List (Fin n))
    (found : Option (Fin n)) (g : Forest n m) : Prop where
  /-- They have been taken off at the front. -/
  queue_eq : f.queue.toList = off ++ g.queue.toList
  /-- Their flags have been cleared, and that of the current node. -/
  active_iff (u : Fin n) : (g.label u).active = true
    ↔ (f.label u).active = true ∧ u ∉ off ∧ current ≠ some u
  /-- A node taken off is selected if it is in a tree, and dropped otherwise. -/
  found_iff {u : Fin n} : u ∈ off → (found = some u ↔ f.side? u ≠ none)
  /-- No other node is selected but the current one. -/
  mem_or_current {u : Fin n} : found = some u → u ∈ off ∨ current = some u
  /-- Labels have changed in their flags only. -/
  label_eq (u : Fin n) : g.label u = { f.label u with active := (g.label u).active }

/-- The label of a node whose flag has been set or cleared. -/
theorem label_flag_eq (f : Forest n m) (v u : Fin n) (b : Bool) :
    (f.flag v b).label u = { f.label u with active := ((f.flag v b).label u).active } := by
  rw [label_flag]
  split
  · rename_i hu
    rw [hu]
  · rfl

/-- The flag of a node that is cleared, and those of the others. -/
theorem active_flag_false : ((f.flag v false).label u).active = true
    ↔ (f.label u).active = true ∧ some v ≠ some u := by
  rw [label_flag]
  by_cases hu : u = v
  · simp [hu]
  · simp [hu, Ne.symm hu]

/-- The current node is selected, and no node is taken off. -/
theorem polled_current (f : Forest n m) (v : Fin n) :
    f.Polled (some v) [] (some v) (f.flag v false) where
  queue_eq := rfl
  active_iff u := by
    rw [active_flag_false, and_iff_right List.not_mem_nil]
  found_iff hu := absurd hu List.not_mem_nil
  mem_or_current := .inr
  label_eq u := label_flag_eq f v u false

/-- The current node is passed over, since it is free. -/
theorem Polled.of_flag (hg : (f.flag v false).Polled none off found g) :
    f.Polled (some v) off found g where
  queue_eq := hg.queue_eq
  active_iff u := by
    rw [hg.active_iff, active_flag_false, and_iff_left (Option.some_ne_none u).symm, and_assoc,
      and_comm (a := some v ≠ some u)]
  found_iff hu := by
    rw [hg.found_iff hu, side?_flag]
  mem_or_current hu := (hg.mem_or_current hu).imp_right fun hnone => absurd hnone (by simp)
  label_eq u := by
    conv_lhs => rw [hg.label_eq, label_flag_eq]

/-- The queue is empty, and nothing is selected. -/
theorem polled_nil (f : Forest n m) : f.Polled none [] none f where
  queue_eq := rfl
  active_iff u := by simp
  found_iff hu := absurd hu List.not_mem_nil
  mem_or_current hu := absurd hu (by simp)
  label_eq _ := rfl

/-- The first node of the queue is selected, since it is in a tree. -/
theorem polled_front {queue : Deque (Fin n)} (hpop : f.queue.popFront? = some (v, queue))
    (hv : f.side? v ≠ none) : f.Polled none [v] (some v) (f.dequeue v queue) where
  queue_eq := Deque.toList_of_popFront? hpop
  active_iff u := by
    rw [label_dequeue, active_flag_false, List.mem_singleton, Ne, Option.some_inj,
      and_iff_left (Option.some_ne_none u).symm, eq_comm (a := v)]
  found_iff {u} hu := by
    rw [List.mem_singleton.1 hu]
    exact iff_of_true rfl hv
  mem_or_current hu := .inl (List.mem_singleton.2 (Option.some.inj hu).symm)
  label_eq u := label_flag_eq f v u false

/-- The first node of the queue is dropped, since it is free. -/
theorem Polled.cons {queue : Deque (Fin n)} (hpop : f.queue.popFront? = some (v, queue))
    (hv : f.side? v = none) (hg : (f.dequeue v queue).Polled none off found g) :
    f.Polled none (v :: off) found g where
  queue_eq := by
    rw [Deque.toList_of_popFront? hpop]
    exact congrArg (v :: ·) hg.queue_eq
  active_iff u := by
    rw [hg.active_iff, label_dequeue, active_flag_false, List.mem_cons, not_or, Ne,
      Option.some_inj, eq_comm (a := v), and_assoc, and_assoc]
  found_iff {u} hu := by
    have hlater {w : Fin n} (hw : w ∈ off) : found = some w ↔ f.side? w ≠ none := by
      rw [hg.found_iff hw, side?_dequeue]
    rcases List.mem_cons.1 hu with rfl | hu
    · refine iff_of_false (fun hfound => ?_) (fun h => h hv)
      -- it would have been found among the nodes taken off later
      rcases hg.mem_or_current hfound with hmem | hnone
      · exact (hlater hmem).1 hfound hv
      · cases hnone
    · exact hlater hu
  mem_or_current hu := (hg.mem_or_current hu).imp_left (List.mem_cons_of_mem v)
  label_eq u := by
    conv_lhs => rw [hg.label_eq, label_dequeue, label_flag_eq]

/-- **The nodes taken off the queue** on the way to the next active one. -/
theorem exists_polled_nextActive (f : Forest n m) :
    ∃ off, f.Polled none off f.nextActive.1 f.nextActive.2 := by
  induction f using nextActive.induct with
  | case1 f hpop =>
    rw [nextActive_of_none hpop]
    exact ⟨[], f.polled_nil⟩
  | case2 f v queue hpop g hside =>
    rw [side?_dequeue] at hside
    rw [nextActive_of_some hpop, if_pos hside]
    exact ⟨[v], polled_front hpop (Option.isSome_iff_ne_none.1 hside)⟩
  | case3 f v queue hpop g hside ih =>
    rw [side?_dequeue] at hside
    obtain ⟨off, hoff⟩ := ih
    rw [nextActive_of_some hpop, if_neg hside]
    exact ⟨v :: off, hoff.cons hpop (Option.not_isSome_iff_eq_none.1 hside)⟩

/-- **Selecting a node takes nodes off the queue.** -/
theorem exists_polled_select (f : Forest n m) (current : Option (Fin n)) :
    ∃ off, f.Polled current off (f.select current).1 (f.select current).2 := by
  cases current with
  | none => exact f.exists_polled_nextActive
  | some v =>
    unfold Forest.select
    dsimp only
    split
    · exact ⟨[], f.polled_current v⟩
    · obtain ⟨off, hoff⟩ := (f.flag v false).exists_polled_nextActive
      exact ⟨off, hoff.of_flag⟩

/-! ## Nodes that join

Nodes are put on the queue one at a time, at the end, and only if they do not wait already. So the
nodes that have joined are different from each other and from those that wait. -/

/-- **Some nodes have been queued**, and the node given has become current, if there is one. -/
structure Queued (f : Forest n m) (on : List (Fin n)) (current : Option (Fin n))
    (g : Forest n m) : Prop where
  /-- They have been queued at the back. -/
  queue_eq : g.queue.toList = f.queue.toList ++ on
  /-- Their flags have been set, and that of the current node. -/
  active_iff (u : Fin n) : (g.label u).active = true
    ↔ (f.label u).active = true ∨ u ∈ on ∨ current = some u
  /-- They did not wait before. -/
  idle {u : Fin n} : u ∈ on → (f.label u).active = false

namespace Queued

/-- Nothing that happens away from the queue queues a node. -/
theorem of_eq (hactive : ∀ u, (g.label u).active = (f.label u).active)
    (hqueue : g.queue = f.queue) : f.Queued [] none g where
  queue_eq := by rw [hqueue, List.append_nil]
  active_iff u := by simp [hactive]
  idle hu := absurd hu List.not_mem_nil

/-- A node that waits before waits afterwards. -/
theorem active_of_active (hfg : f.Queued on current g) (hu : (f.label u).active = true) :
    (g.label u).active = true :=
  (hfg.active_iff u).2 (.inl hu)

/-- A node that does not wait afterwards did not wait before. -/
theorem idle_of_idle (hfg : f.Queued on current g) (hu : (g.label u).active = false) :
    (f.label u).active = false := by
  rw [Bool.eq_false_iff] at hu ⊢
  exact mt hfg.active_of_active hu

/-- What is queued later is queued behind what was queued before, and did not wait then. -/
theorem trans (hfg : f.Queued on none g) (hgh : g.Queued on' current h) :
    f.Queued (on ++ on') current h where
  queue_eq := by rw [hgh.queue_eq, hfg.queue_eq, List.append_assoc]
  active_iff u := by
    rw [hgh.active_iff, hfg.active_iff, List.mem_append, or_iff_left (Option.some_ne_none u).symm,
      or_assoc, or_assoc]
  idle hu := (List.mem_append.1 hu).elim hfg.idle fun hu => hfg.idle_of_idle (hgh.idle hu)

/-- A node becomes current before others are queued. -/
theorem of_flag (hg : (f.flag v true).Queued on none g) : f.Queued on (some v) g where
  queue_eq := hg.queue_eq
  active_iff u := by
    rw [hg.active_iff, label_flag]
    by_cases hu : u = v
    · simp [hu]
    · simp [hu, Ne.symm hu]
  idle {u} hu := by
    have hidle := hg.idle hu
    rw [label_flag] at hidle
    split at hidle
    · exact absurd hidle (by simp)
    · exact hidle

end Queued

/-- **Activating a node** queues it, unless it waits already. -/
theorem exists_queued_activate (f : Forest n m) (v : Fin n) :
    ∃ on, f.Queued on none (f.activate v) := by
  by_cases hv : (f.label v).active = true
  · refine ⟨[], .of_eq (fun u => ?_) ?_⟩
    · rw [Forest.activate, if_pos hv]
    · rw [Forest.activate, if_pos hv]
  · refine ⟨[v], ?_, fun u => ?_, fun hu => ?_⟩
    · rw [Forest.activate, if_neg hv]
      exact Deque.toList_pushBack f.queue v
    · rw [active_activate, List.mem_singleton, or_iff_left (Option.some_ne_none u).symm, or_comm]
    · rw [List.mem_singleton.1 hu]
      exact Bool.eq_false_iff.2 hv

/-- The newcomers of a scan are the nodes to which an arc leads. -/
theorem mem_newcomers {live : Arc m → Bool} {arcs : List (Arc m)} :
    u ∈ f.newcomers T live s arcs ↔ (f.offshoot? T live s arcs u).isSome = true := by
  rw [newcomers, List.mem_eraseDups, List.mem_map, offshoot?, List.find?_isSome]
  simp

/-- **A scan queues the newcomers** that do not wait already. -/
theorem Grows.queued {live : Arc m → Bool} {stamp distance : Nat} {arcs : List (Arc m)}
    {bridge? : Option (Arc m)} (hfg : Grows T live s stamp distance arcs f bridge? g) :
    f.Queued ((f.newcomers T live s arcs).filter fun u => !(f.label u).active) none g where
  queue_eq := hfg.queue
  active_iff u := by
    rw [hfg.label, List.mem_filter, mem_newcomers]
    cases f.offshoot? T live s arcs u with
    | none => simp
    | some a => cases (f.label u).active <;> simp
  idle hu := by simpa using (List.mem_filter.1 hu).2

/-! ## Nodes that an adoption pass queues

Only an expulsion queues nodes, and they are neighbours that can grow into the gap. The lemmas
follow the definitions from a single arc up to the whole pass. -/

/-- Dealing with an arc out of an orphan to be expelled may queue its other end. -/
theorem exists_queued_estrange (f : Forest n m) (v : Fin n) (a : Arc m) :
    ∃ on, f.Queued on none (estrange T S s v f a) := by
  obtain ⟨g, hg, hcases⟩ := estrange_cases T S s v f a
  obtain ⟨on, hon⟩ : ∃ on, f.Queued on none g := by
    rcases hg with rfl | rfl
    · exact ⟨[], .of_eq (fun _ => rfl) rfl⟩
    · exact f.exists_queued_activate (T.head a)
  rcases hcases with hsame | ⟨hcut, -⟩
  · rw [hsame]
    exact ⟨on, hon⟩
  · rw [hcut]
    exact ⟨on ++ [], hon.trans
      (.of_eq (label_sever_congr Label.active (fun _ _ => rfl) g (T.head a)) rfl)⟩

/-- **Expelling an orphan** queues neighbours. -/
theorem exists_queued_expel (f : Forest n m) (v : Fin n) :
    ∃ on, f.Queued on none (f.expel T S s v) := by
  have hfold (arcs : List (Arc m)) (f : Forest n m) :
      ∃ on, f.Queued on none (arcs.foldl (estrange T S s v) f) := by
    induction arcs generalizing f with
    | nil => exact ⟨[], .of_eq (fun _ => rfl) rfl⟩
    | cons a arcs ih =>
      obtain ⟨on, hon⟩ := f.exists_queued_estrange (T := T) (S := S) (s := s) v a
      obtain ⟨on', hon'⟩ := ih (estrange T S s v f a)
      exact ⟨on ++ on', hon.trans hon'⟩
  obtain ⟨on, hon⟩ := hfold (T.out v) f
  refine ⟨on ++ [], hon.trans (.of_eq (fun u => ?_) rfl)⟩
  exact label_update_congr Label.active (fun _ => by rfl) _ v u

end Forest

namespace Repair

variable {r r' : Repair n m} {current : Option (Fin n)} {v : Fin n} {s : Side}

/-- **Settling an orphan** queues no node but neighbours of a node expelled. -/
theorem exists_queued_settle (hr : r.forest.Mending T S current (some v)) :
    ∃ on, r.forest.Queued on none (settle T S s r v).forest := by
  obtain ⟨f, adopted, expelled⟩ := r
  have hattach (g : Forest n m) (l : Link m) (t d : Nat) : g.Queued [] none (g.attach v s l t d) :=
    .of_eq (fun u => Forest.active_attach g v u s l t d) rfl
  simp only [settle]
  split
  · exact ⟨[], hattach f _ _ _⟩
  · obtain ⟨halike, -, -⟩ := Forest.bestParent_spec hr.linked hr.stamped v s
    have hsame : f.Queued [] none (f.bestParent T S s v).1 := .of_eq halike.active halike.queue
    split
    · rename_i g a d hbest
      rw [hbest] at hsame
      exact ⟨[] ++ [], hsame.trans (hattach g _ _ _)⟩
    · rename_i g hbest
      rw [hbest] at hsame
      obtain ⟨on, hon⟩ := g.exists_queued_expel (T := T) (S := S) (s := s) v
      exact ⟨[] ++ on, hsame.trans hon⟩

/-- One round of a pass. -/
theorem exists_queued_round (hr : r.forest.Mending T S current none)
    (h : round T S r = .more r') : ∃ on, r.forest.Queued on none r'.forest := by
  rcases round_cases hr with ⟨-, hdone⟩ | ⟨v, s, orphans, -, -, hheld, -, hmore⟩
  · exact absurd (hdone.symm.trans h) (by simp)
  · obtain rfl := Turn.more.inj (hmore.symm.trans h)
    obtain ⟨on, hon⟩ :=
      exists_queued_settle (r := { r with forest := { r.forest with orphans } }) (s := s) hheld
    have hpop : r.forest.Queued [] none { r.forest with orphans } := .of_eq (fun _ => rfl) rfl
    exact ⟨[] ++ on, hpop.trans hon⟩

/-- **An adoption pass queues some nodes.** -/
theorem exists_queued_run (hr : r.forest.Mending T S current none) :
    ∃ on, r.forest.Queued on none (r.run T S).forest := by
  induction r using Repair.run.induct T S with
  | case1 r r' hround =>
    obtain ⟨rfl, -⟩ := round_done hr hround
    rw [run_of_done hround]
    exact ⟨[], .of_eq (fun _ => rfl) rfl⟩
  | case2 r r' hround ih =>
    obtain ⟨on, hon⟩ := exists_queued_round hr hround
    obtain ⟨on', hon'⟩ := ih (round_mending hr hround).1
    rw [run_of_more hround]
    exact ⟨on ++ on', hon.trans hon'⟩

end Repair

end MinCut
