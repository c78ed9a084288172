import MinCut.Proofs.Forest.Queueing
import MinCut.Proofs.Graph.Growth
import MinCut.Proofs.Graph.Roots

/-!
# The queue of active nodes

At every state of a search the flags show which nodes wait. These are the nodes of the queue,
each of which is there once, and the current node, which is not there (`Forest.Waiting`). It
makes no difference whether they are in a tree. A node that is released keeps its flag and its
place in the queue.

A turn takes nodes off the queue and then puts others there (`Search.Turnover`). All nodes that
have been put there so far are those that have been taken off, followed by those that still
wait, in the same order. So a node is taken off once for each time that it has been queued. If
it is in a tree then, it is scanned, whether or not it has been free in the meantime
(`Search.QueuedAfter`). When the search is over, no node waits (`Graph.search_queued`).

To say that a node is taken off once for each time that it has been queued, the turns are numbered,
and each has its list of nodes taken off and its list of nodes queued. The lists are joined in the
order of the turns. That a node which waits is taken off some time follows by counting up to the end
of the search, when the queue is empty.
-/

namespace MinCut

variable {n m w : Nat} {T : Topology n m} {total : Int} {value : Finset Nat → Int}

namespace Search

variable {r : Residual (Signed w) n m} {s : Search (Signed w) n m} {v u : Fin n} {bridge : Arc m}
variable {on off : List (Fin n)}

/-! ## One turn -/

/-- **What a turn takes off the queue and what it puts there.** -/
structure Turnover (T : Topology n m) (s : Search (Signed w) n m) (off on : List (Fin n)) :
    Prop where
  /-- First nodes are taken off. -/
  polled : s.forest.Polled s.current off (s.forest.select s.current).1 s.selected
  /-- Then nodes are queued, and one may become current. -/
  queued : s.selected.Queued on (turn T s).state.current (turn T s).state.forest
  /-- A free node that joins a tree waits when the turn is over. -/
  joins {v u : Fin n} : (s.forest.select s.current).1 = some v → s.selected.side? u = none →
    (s.grown T v).side? u ≠ none → u ∈ (turn T s).state.forest.queue.toList

/-- A scan queues nodes. -/
theorem Sound.exists_queued_grown (h : s.Sound T total value)
    (hselect : (s.forest.select s.current).1 = some v) :
    ∃ on, s.selected.Queued on none (s.grown T v) := by
  obtain ⟨side, hgrowing⟩ := h.growing hselect
  exact ⟨_, hgrowing.grows.queued⟩

/-- So does an augmentation, in its adoption pass. -/
theorem Sound.exists_queued_augment (h : s.Sound T total value) (hw : 0 < w)
    (hfinds : s.Finds T v bridge) :
    ∃ on, (s.grown T v).Queued on (some v) (Search.turn T s).state.forest := by
  obtain ⟨on, hon⟩ := Repair.exists_queued_run (r := .begin _) (h.mending hw hfinds)
  have hflag : ((s.grown T v).flag v true).Queued [] none (s.severed T v bridge) :=
    .of_eq (Forest.active_cut _) (Forest.queue_cut _)
  rw [turn_of_bridge hfinds]
  exact ⟨[] ++ on, (hflag.trans hon).of_flag⟩

/-- **The rest of a turn queues nodes**, after a node has been selected. -/
theorem Sound.exists_queued_turn (h : s.Sound T total value) (hw : 0 < w)
    (hselect : (s.forest.select s.current).1 = some v) :
    ∃ on, (s.grown T v).Queued on (Search.turn T s).state.current
      (Search.turn T s).state.forest := by
  cases hbridge : (s.selected.grow T s.residual.support v).1 with
  | none =>
    rw [turn_of_no_bridge hselect hbridge]
    exact ⟨[], .of_eq (fun _ => rfl) rfl⟩
  | some bridge =>
    have hfinds : s.Finds T v bridge := ⟨hselect, hbridge⟩
    obtain ⟨on, hon⟩ := h.exists_queued_augment hw hfinds
    rw [turn_of_bridge hfinds] at hon ⊢
    exact ⟨on, hon⟩

/-- A node that has joined a tree in a scan waits. -/
theorem Growing.mem_queue {side : Side} (h : s.Growing T v side)
    (hfree : s.selected.side? u = none) (hu : (s.grown T v).side? u ≠ none) :
    u ∈ (s.grown T v).queue.toList := by
  rw [← h.active_grown_iff]
  have hlabel := h.grows.label u
  cases hfirst : s.selected.offshoot? T (s.residual.opens side) side (T.out v) u with
  | none =>
    rw [hfirst] at hlabel
    exact absurd hfree (by rwa [← show (s.grown T v).side? u = s.selected.side? u from
      congrArg (fun l => l.place.side?) hlabel])
  | some a =>
    rw [hfirst] at hlabel
    rw [hlabel]

/-- **Every turn takes nodes off the queue and puts nodes there.** -/
theorem Sound.exists_turnover (h : s.Sound T total value) (hw : 0 < w) :
    ∃ off on, s.Turnover T off on := by
  obtain ⟨off, hoff⟩ := s.forest.exists_polled_select s.current
  cases hselect : (s.forest.select s.current).1 with
  | none =>
    refine ⟨off, [], hoff, ?_, fun hv => absurd (hselect.symm.trans hv) (by simp)⟩
    rw [turn_of_exhausted hselect]
    exact .of_eq (fun _ => rfl) rfl
  | some v =>
    obtain ⟨side, hgrowing⟩ := h.growing hselect
    obtain ⟨on, hon⟩ := h.exists_queued_grown hselect
    obtain ⟨on', hon'⟩ := h.exists_queued_turn hw hselect
    refine ⟨off, on ++ on', hoff, hon.trans hon', fun {v' u} hv' hfree hu => ?_⟩
    obtain rfl := Option.some.inj (hselect.symm.trans hv')
    rw [hon'.queue_eq]
    exact List.mem_append_left on' (hgrowing.mem_queue hfree hu)

/-! ## The queue along a search

The nodes that are queued in all turns together are those that are taken off in all turns, followed
by those that still wait. So a node that waits is taken off as soon as those in front of it have
been, if the search comes to an end. -/

/-- **The queue after some turns**, where the nodes taken off and the nodes queued in each turn
are given. -/
structure QueuedAfter (T : Topology n m) (r : Residual (Signed w) n m)
    (off on : Nat → List (Fin n)) (k : Nat) : Prop where
  /-- Just the nodes of the queue and the current one are flagged. -/
  waiting : (after T r k).forest.Waiting (after T r k).current
  /-- The next turn takes its nodes off and queues its nodes. -/
  turnover : (after T r k).Turnover T (off k) (on k)
  /-- **All nodes queued so far** are those taken off so far and those that still wait. -/
  queue_eq : (start r).forest.queue.toList ++ (List.range k).flatMap on
    = (List.range k).flatMap off ++ (after T r k).forest.queue.toList
  /-- A node that waits keeps waiting until it is taken off, and then it is scanned if it is in
  a tree. -/
  exists_polled {u : Fin n} : u ∈ (after T r k).forest.queue.toList →
    ∃ j, k ≤ j ∧ u ∈ off j
      ∧ (∀ i, k ≤ i → i < j → u ∉ off i)
      ∧ (∀ i, k ≤ i → i ≤ j → u ∈ (after T r i).forest.queue.toList)
      ∧ ((after T r j).forest.side? u ≠ none →
        ((after T r j).forest.select (after T r j).current).1 = some u)

/-- **No node waits any more.** -/
structure Idle (s : Search (Signed w) n m) : Prop where
  /-- There is no current node. -/
  current_eq_none : s.current = none
  /-- The queue is empty. -/
  queue_eq_nil : s.forest.queue.toList = []
  /-- No flag is set. -/
  active_eq_false (v : Fin n) : (s.forest.label v).active = false

/-- It stays like that. -/
theorem Idle.turn (h : s.Idle) (T : Topology n m) : (Search.turn T s).state.Idle := by
  have hselect : s.forest.select s.current = (none, s.forest) := by
    rw [h.current_eq_none]
    exact Forest.nextActive_of_none (Deque.popFront?_eq_none_iff.2 h.queue_eq_nil)
  rw [turn_of_exhausted (congrArg Prod.fst hselect), selected, hselect]
  exact ⟨rfl, h.queue_eq_nil, h.active_eq_false⟩

/-- So no node waits after later turns. -/
theorem Idle.after {j k : Nat} (h : (after T r k).Idle) (hjk : k ≤ j) : (after T r j).Idle := by
  induction j, hjk using Nat.le_induction with
  | base => exact h
  | succ j _ ih =>
    rw [after_succ]
    exact ih.turn T

/-- **When a search has finished no node waits.** -/
theorem Finished.idle (h : s.Finished T total value) : s.Idle where
  current_eq_none := h.current_eq_none
  queue_eq_nil := h.queue_eq_nil
  active_eq_false v := by
    refine h.active_eq_false ?_ ?_
    · rw [h.queue_eq_nil]
      exact List.not_mem_nil
    · rw [h.current_eq_none]
      exact (Option.some_ne_none v).symm

variable {offs ons : Nat → List (Fin n)} {k : Nat}

/-- A node that is not taken off in a turn keeps waiting. -/
theorem Turnover.mem_turn (h : s.Turnover T off on) (hu : u ∈ s.forest.queue.toList)
    (hoff : u ∉ off) : u ∈ (Search.turn T s).state.forest.queue.toList := by
  rw [h.polled.queue_eq, List.mem_append, or_iff_right hoff] at hu
  rw [h.queued.queue_eq]
  exact List.mem_append_left on hu

/-- **A node that waits is taken off some time**, if the search comes to an end. -/
theorem exists_first_polled (hturnover : ∀ k, (after T r k).Turnover T (offs k) (ons k))
    {e : Nat} (hidle : (after T r e).Idle) (hu : u ∈ (after T r k).forest.queue.toList) :
    ∃ j, k ≤ j ∧ u ∈ offs j
      ∧ (∀ i, k ≤ i → i < j → u ∉ offs i)
      ∧ ∀ i, k ≤ i → i ≤ j → u ∈ (after T r i).forest.queue.toList := by
  -- as long as it is not taken off it waits
  have hstays {j : Nat} (hkj : k ≤ j) (hoff : ∀ i, k ≤ i → i < j → u ∉ offs i) :
      u ∈ (after T r j).forest.queue.toList := by
    induction j, hkj using Nat.le_induction with
    | base => exact hu
    | succ j hkj ih =>
      rw [after_succ]
      exact (hturnover j).mem_turn (ih fun i hki hij => hoff i hki (Nat.lt_succ_of_lt hij))
        (hoff j hkj (Nat.lt_succ_self j))
  -- it cannot wait for ever, as no node waits when the search is over
  have hexists : ∃ j, k ≤ j ∧ u ∈ offs j := by
    by_contra hnever
    have hmem := hstays (Nat.le_max_left k e) fun i hki _ hi => hnever ⟨i, hki, hi⟩
    rw [(hidle.after (Nat.le_max_right k e)).queue_eq_nil] at hmem
    exact List.not_mem_nil hmem
  classical
  obtain ⟨hkj, hj⟩ := Nat.find_spec hexists
  have hfirst (i : Nat) (hki : k ≤ i) (hij : i < Nat.find hexists) : u ∉ offs i := fun hi =>
    Nat.find_min hexists hij ⟨hki, hi⟩
  exact ⟨Nat.find hexists, hkj, hj, hfirst, fun i hki hij =>
    hstays hki fun i' hki' hi' => hfirst i' hki' (Nat.lt_of_lt_of_le hi' hij)⟩

/-- **All nodes queued so far are those taken off and those that wait**, in the same order. -/
theorem queue_after_eq (hturnover : ∀ k, (after T r k).Turnover T (offs k) (ons k)) (k : Nat) :
    (start r).forest.queue.toList ++ (List.range k).flatMap ons
      = (List.range k).flatMap offs ++ (after T r k).forest.queue.toList := by
  induction k with
  | zero => exact List.append_nil _
  | succ k ih =>
    have htaken := (hturnover k).polled.queue_eq
    have hput := (hturnover k).queued.queue_eq
    rw [after_succ, hput, List.range_succ, List.flatMap_append, List.flatMap_append,
      ← List.append_assoc, ih, htaken]
    simp

/-- **What is said of the queue holds after every number of turns.** -/
theorem exists_queuedAfter (hr : r.Balanced total) (hw : 0 < w) {e : Nat}
    (hidle : (after T r e).Idle) :
    ∃ off on : Nat → List (Fin n), ∀ k, QueuedAfter T r off on k := by
  have hsound (k : Nat) := (visited_after T r k).sound hw hr
  choose off on hturnover using fun k => (hsound k).exists_turnover hw
  refine ⟨off, on, fun k => ⟨(hsound k).forest.waiting, hturnover k, queue_after_eq hturnover k,
    fun {u} hu => ?_⟩⟩
  obtain ⟨j, hkj, hj, hfirst, hwaits⟩ := exists_first_polled hturnover hidle hu
  exact ⟨j, hkj, hj, hfirst, hwaits, ((hturnover j).polled.found_iff hj).2⟩

end Search

/-- **The search on a network keeps its queue**: there are lists of the nodes that each turn takes
off and puts on with which the queue is right after every number of turns, and when the search is
over it is empty. -/
structure Network.KeepsQueue (net : Network (Signed w)) : Prop where
  /-- After every number of turns the queue is right. -/
  after : ∃ off on : Nat → List (Fin net.nodeCount),
    ∀ k, Search.QueuedAfter net.topology net.residual off on k
  /-- After one of them the search is over. -/
  ends : ∃ k, net.search = some (Search.after net.topology net.residual k)
    ∧ (Search.after net.topology net.residual k).Idle

namespace Graph

/-- **The queue lists the nodes that wait**, at every state of a search, and each node that joins
it is taken off once. -/
theorem search_queued (hw : 0 < w) (calls : List (Call (Signed w)))
    (hcalls : ∀ c ∈ calls, c.builds = true) : Builds calls Network.KeepsQueue := by
  obtain ⟨net, hanswers, hbalanced, _⟩ := empty_answers hw hcalls
  obtain ⟨final, hsearch, hvisited, hfinished⟩ := hbalanced.search hw
  obtain ⟨k, rfl⟩ := hvisited.exists_after
  exact ⟨net, hanswers, Search.exists_queuedAfter hbalanced.residual hw hfinished.idle, k, hsearch,
    hfinished.idle⟩

/-- The calls of `detour` that come before the search: two paths, with an adoption after the
first. -/
theorem search_queued_detour : (0 < 8 ∧ ∀ c ∈ detour.take 7, c.builds = true)
    ∧ Builds (detour.take 7) Network.KeepsQueue := by
  have hw : 0 < 8 := by decide
  have hcalls : ∀ c ∈ detour.take 7, c.builds = true := by decide
  exact ⟨⟨hw, hcalls⟩, search_queued hw (detour.take 7) hcalls⟩

end Graph

end MinCut
