import MinCut.Proofs.Forest.Adoption
import MinCut.Proofs.Forest.Growth
import MinCut.Proofs.Loop

/-!
# The loops over the trees

Three things the trees are asked for are found in loops: the next active node, by
taking nodes off the queue; the distance of a node, by following its chain of links;
and a forest without orphans, by settling one after the other.

The first and the last end from any forest whatsoever, since a line gets shorter or a
tree smaller with each round (`Forest.ends_poll`, `Repair.ends_round`). The chain of a
node does not get shorter by being followed. It could go round in circles, and it is the
invariant of the trees that says it does not (`Forest.traces_trace`): it reaches a
terminal, after as many links as the node is deep, or it runs into an orphan. In the
first case the distances are noted on a second way up, and as that stops at the first
node that has been noted before, what it leaves behind is what `Forest.trace` gives,
which notes them on the way back.

An adoption pass is also looked at from within. `Repair.Visited` gives the states between its
rounds, and `Repair.Asks` the calls that a round makes to find a distance, each with the forest in
which it is made. What is claimed of every call in every round is stated of these.
-/

namespace MinCut

variable {n m : Nat} {T : Topology n m} {S : Support n m}

namespace Forest

/-! ## The queue of active nodes -/

/-- Takes a node off the queue. The loop is over when it is in a tree, or when there is
none. -/
def poll (f : Forest n m) : Forest n m ⊕ (Option (Fin n) × Forest n m) :=
  match f.queue.popFront? with
  | none => .inr (none, f)
  | some (v, queue) =>
    let f := f.dequeue v queue
    if (f.side? v).isSome then .inr (some v, f) else .inl f

/-- **The loop over the queue ends** with the next active node. -/
theorem ends_poll (f : Forest n m) : Loop.Ends poll f f.nextActive := by
  induction f using nextActive.induct with
  | case1 f hpop =>
    rw [nextActive_of_none hpop]
    refine .last ?_
    unfold poll
    rw [hpop]
  | case2 f v queue hpop g hv =>
    rw [side?_dequeue] at hv
    rw [nextActive_of_some hpop, if_pos hv]
    refine .last ?_
    unfold poll
    rw [hpop]
    dsimp only
    rw [side?_dequeue, if_pos hv]
  | case3 f v queue hpop g hv ih =>
    rw [side?_dequeue] at hv
    rw [nextActive_of_some hpop, if_neg hv]
    refine .next ?_ ih
    unfold poll
    rw [hpop]
    dsimp only
    rw [side?_dequeue, if_neg hv]

/-! ## The chain of a node

A chain is walked up twice, once to count its links and once to note the distances. The definition
of `Forest.trace` is a recursion that does both on the way up and back. Here it is shown to give
what the two loops give. A chain that runs into an orphan notes nothing
(`Forest.Adrift.ends_probe`), and one that reaches a terminal is compared by induction on the depth
of its node (`Forest.Depth.probed`). -/

/-- Counts the link of a node on the way up from another. The loop is over when the
distance of the node is known or it is a root, and also when it is an orphan. -/
def probe (T : Topology n m) (f : Forest n m) :
    Fin n × Nat → (Fin n × Nat) ⊕ (Option Nat × Forest n m)
  | (v, count) =>
    if (f.label v).stamp = f.time then .inr (some (count + (f.label v).distance), f)
    else
      match f.link? v with
      | some .terminal => .inr (some (count + 1), f.mark v 1)
      | some (.arc a) => .inl (T.head a, count + 1)
      | _ => .inr (none, f)

/-- Notes the distance of a node on the way up. The loop is over when it has been noted
before, or the node is a root. -/
def note (T : Topology n m) :
    Forest n m × Fin n × Nat → (Forest n m × Fin n × Nat) ⊕ Forest n m
  | (f, v, distance) =>
    if (f.label v).stamp = f.time then .inr f
    else
      let f := f.mark v distance
      match f.link? v with
      | some (.arc a) => .inl (f, T.head a, distance - 1)
      | _ => .inr f

/-- **Finding the distance of a node ends**, with the distance and what has been
noted. -/
inductive Traces (T : Topology n m) (f : Forest n m) (v : Fin n) : Option Nat × Forest n m → Prop
  /-- The chain runs into an orphan. -/
  | lost {g : Forest n m} (probe : Loop.Ends (f.probe T) (v, 0) (none, g)) : Traces T f v (none, g)
  /-- It reaches a terminal, and the distances are noted. -/
  | found {g h : Forest n m} {d : Nat} (probe : Loop.Ends (f.probe T) (v, 0) (some d, g))
      (note : Loop.Ends (note T) (g, v, d) h) : Traces T f v (some d, h)

variable {f g h : Forest n m} {u v : Fin n} {c d e k x : Nat}

/-- Two nodes can be marked in either order, since each mark is written into one label. -/
theorem mark_comm (huv : u ≠ v) (f : Forest n m) (d e : Nat) :
    (f.mark u d).mark v e = (f.mark v e).mark u d := by
  have hval : u.val ≠ v.val := fun h => huv (Fin.ext h)
  have hu : (f.labels.set v { f.labels.get v with stamp := f.time, distance := e } v.isLt).get u
      = f.labels.get u := by
    rw [get_set, if_neg huv]
  have hv : (f.labels.set u { f.labels.get u with stamp := f.time, distance := d } u.isLt).get v
      = f.labels.get v := by
    rw [get_set, if_neg (Ne.symm huv)]
  unfold mark update
  simp only [hu, hv, Vector.set_comm _ _ hval]

/-- Noting the distance of a node leaves the marks of others alone. -/
theorem note_mark (huv : u ≠ v) (f : Forest n m) (x d : Nat) :
    note T (f.mark v x, u, d)
      = (note T (f, u, d)).map (fun (f, w) => (f.mark v x, w)) (·.mark v x) := by
  have hlabel : (f.mark v x).label u = f.label u := by
    rw [label_mark, if_neg huv]
  have hlink : ((f.mark v x).mark u d).link? u = (f.mark u d).link? u := by
    rw [link?_eq, link?_eq, place_mark, place_mark, place_mark]
  unfold note
  simp only
  rw [hlabel, hlink]
  show (if (f.label u).stamp = f.time then _ else _) = _
  split
  · rfl
  · rw [mark_comm (Ne.symm huv)]
    split <;> rfl

/-- The way up goes on over the link of a node. -/
theorem note_eq_inl {s : Forest n m × Fin n × Nat} (h : note T (f, u, d) = .inl s) :
    ∃ a, f.link? u = some (.arc a) ∧ s = (f.mark u d, T.head a, d - 1) := by
  unfold note at h
  dsimp only at h
  split at h
  · cases h
  · split at h
    · rename_i a hlink
      rw [link?_eq, place_mark] at hlink
      exact ⟨a, hlink, (Sum.inl.inj h).symm⟩
    · cases h

/-- **Noting the distances of a chain** leaves the mark of a deeper node alone. -/
theorem ends_note_mark {s : Forest n m × Fin n × Nat} (h : Loop.Ends (note T) s g)
    (hu : s.1.Depth T s.2.1 k) (hv : s.1.Depth T v e) (hke : k < e) :
    Loop.Ends (note T) (s.1.mark v x, s.2) (g.mark v x) := by
  -- over the nodes above, none of which is the deeper one
  induction h generalizing k e with
  | @last s g h =>
    obtain ⟨f, u, d⟩ := s
    have huv : u ≠ v := by
      rintro rfl
      exact hke.ne (hu.unique hv)
    refine .last ?_
    rw [note_mark huv, h]
    rfl
  | @next s s' g h _ ih =>
    obtain ⟨f, u, d⟩ := s
    have huv : u ≠ v := by
      rintro rfl
      exact hke.ne (hu.unique hv)
    obtain ⟨a, hlink, rfl⟩ := note_eq_inl h
    obtain ⟨k, rfl, hparent⟩ := hu.parent hlink
    have halike := Alike.mark f u d
    refine .next ?_ (ih (halike.depth hparent) (halike.depth hv) (Nat.lt_of_succ_lt hke))
    rw [note_mark huv, h]
    rfl

/-- A node of a chain that runs into an orphan is not stamped in the pass. -/
theorem Adrift.stamp_ne (h : f.Adrift T v) (hs : f.Stamped T) :
    (f.label v).stamp ≠ f.time := by
  intro hnow
  refine (hs.depth (fun hnone => ?_) hnow).not_adrift h
  rw [← link?_eq_none_iff] at hnone
  cases h with
  | orphan ho => exact absurd (hnone.symm.trans ho) (by simp)
  | child hl _ => exact absurd (hnone.symm.trans hl) (by simp)

/-- **A chain that runs into an orphan has no distance**, and nothing of it is
noted. -/
theorem Adrift.ends_probe (h : f.Adrift T v) (hs : f.Stamped T) (c : Nat) :
    Loop.Ends (f.probe T) (v, c) (none, f) ∧ ∀ bound, trace T bound f v = (none, f) := by
  -- down from the orphan, as the chain is adrift
  induction h generalizing c with
  | @orphan v ho =>
    have hstamp := (Adrift.orphan (T := T) ho).stamp_ne hs
    refine ⟨.last ?_, fun bound => ?_⟩
    · unfold probe
      simp only [if_neg hstamp, ho]
    · cases bound with
      | zero => rfl
      | succ bound =>
        unfold trace
        simp only [if_neg hstamp, ho]
  | @child v a hl up ih =>
    have hstamp := (Adrift.child hl up).stamp_ne hs
    obtain ⟨hprobe, htrace⟩ := ih (c + 1)
    refine ⟨.next ?_ hprobe, fun bound => ?_⟩
    · unfold probe
      simp only [if_neg hstamp, hl]
    · cases bound with
      | zero => rfl
      | succ bound =>
        unfold trace
        simp only [if_neg hstamp, hl, htrace]

/-- **What both ways up a chain come to** that reaches a terminal with its `d`-th link,
when the first has left a forest behind. -/
structure Probed (T : Topology n m) (f : Forest n m) (bound : Nat) (v : Fin n) (d : Nat)
    (g : Forest n m) : Prop where
  /-- The first way up finds the depth. -/
  probe (c : Nat) : Loop.Ends (f.probe T) (v, c) (some (c + d), g)
  /-- So does the trace. -/
  fst_trace : (trace T bound f v).1 = some d
  /-- The second way up leaves the forest behind that the trace does. -/
  note : Loop.Ends (note T) (g, v, d) (trace T bound f v).2
  /-- No node has moved. -/
  alike : Alike f g
  /-- Nodes at a greater depth are as they were. -/
  label_eq {w : Fin n} {k : Nat} : f.Depth T w k → d < k → g.label w = f.label w

/-- The chain of a node that has been stamped in the pass is not followed. -/
theorem Depth.probed_of_stamp (h : f.Depth T v d) (hs : f.Stamped T)
    (hnow : (f.label v).stamp = f.time) (bound : Nat) : f.Probed T (bound + 1) v d f := by
  have hdistance : (f.label v).distance = d := (hs.depth h.side?_ne_none hnow).unique h
  have htrace : trace T (bound + 1) f v = (some d, f) := by
    unfold trace
    rw [if_pos hnow, hdistance]
  refine ⟨fun c => .last ?_, ?_, .last ?_, .refl f, fun _ _ => rfl⟩
  · unfold Forest.probe
    simp only [if_pos hnow, hdistance]
  · rw [htrace]
  · rw [htrace]
    unfold Forest.note
    simp only [if_pos hnow]

/-- The chain of a root is its own link. -/
theorem probed_of_root (hl : f.link? v = some .terminal) (hnow : (f.label v).stamp ≠ f.time)
    (bound : Nat) : f.Probed T (bound + 1) v 1 (f.mark v 1) := by
  have htrace : trace T (bound + 1) f v = (some 1, f.mark v 1) := by
    unfold trace
    simp only [if_neg hnow, hl]
  refine ⟨fun c => .last ?_, ?_, .last ?_, .mark f v 1, fun {w k} hw hk => ?_⟩
  · unfold Forest.probe
    simp only [if_neg hnow, hl]
  · rw [htrace]
  · rw [htrace]
    unfold Forest.note
    simp only
    rw [label_mark, if_pos rfl]
    exact if_pos rfl
  · rw [label_mark, if_neg]
    rintro rfl
    exact hk.ne ((Depth.root hl).unique hw)

/-- The chain of a child is that of its parent with one link more. -/
theorem Probed.child {a : Arc m} (hg : f.Probed T k (T.head a) d g)
    (hl : f.link? v = some (.arc a)) (up : f.Depth T (T.head a) d)
    (hnow : (f.label v).stamp ≠ f.time) : f.Probed T (k + 1) v (d + 1) g := by
  have hv : f.Depth T v (d + 1) := .child hl up
  have htrace : trace T (k + 1) f v
      = (some (d + 1), (trace T k f (T.head a)).2.mark v (d + 1)) := by
    have hup : trace T k f (T.head a) = (some d, (trace T k f (T.head a)).2) :=
      Prod.ext hg.fst_trace rfl
    conv_lhs => unfold trace
    simp only [if_neg hnow, hl]
    rw [hup]
  have hprobe (c : Nat) : f.probe T (v, c) = .inl (T.head a, c + 1) := by
    unfold Forest.probe
    simp only [if_neg hnow, hl]
  -- the node has no mark yet, as the first way up has only marked nodes above it
  have hnote : Forest.note T (g, v, d + 1) = .inl (g.mark v (d + 1), T.head a, d) := by
    have hlink : (g.mark v (d + 1)).link? v = some (.arc a) := by
      rw [link?_eq, place_mark]
      exact (hg.alike.link? v).trans hl
    unfold Forest.note
    simp only
    rw [hg.label_eq hv (Nat.lt_succ_self d), hg.alike.time, if_neg hnow, hlink]
    rfl
  refine ⟨fun c => .next (hprobe c) ?_, ?_, ?_, hg.alike, fun hw hk => ?_⟩
  · have hrest := hg.probe (c + 1)
    rwa [Nat.add_right_comm] at hrest
  · rw [htrace]
  · rw [htrace]
    -- the child is marked before its parents here, which their marks do not show
    exact .next hnote (ends_note_mark hg.note (hg.alike.depth up) (hg.alike.depth hv)
      (Nat.lt_succ_self d))
  · exact hg.label_eq hw (Nat.lt_of_succ_lt hk)

/-- **A chain that reaches a terminal** is as long as the node is deep, and the distances
noted on the way up are those noted on the way back. -/
theorem Depth.probed (h : f.Depth T v d) (hs : f.Stamped T) {bound : Nat} (hd : d ≤ bound) :
    ∃ g, f.Probed T bound v d g := by
  induction h generalizing bound with
  | @root v hl =>
    obtain ⟨bound, rfl⟩ := Nat.exists_eq_add_of_le' hd
    by_cases hnow : (f.label v).stamp = f.time
    · exact ⟨f, (Depth.root hl).probed_of_stamp hs hnow bound⟩
    · exact ⟨f.mark v 1, probed_of_root hl hnow bound⟩
  | @child v a d hl up ih =>
    obtain ⟨bound, rfl⟩ : ∃ k, bound = k + 1 := ⟨bound - 1, by omega⟩
    by_cases hnow : (f.label v).stamp = f.time
    · exact ⟨f, (Depth.child hl up).probed_of_stamp hs hnow bound⟩
    · obtain ⟨g, hg⟩ := ih (Nat.le_of_succ_le_succ hd)
      exact ⟨g, hg.child hl up hnow⟩

/-- **Finding the distance of a node of a tree ends.** -/
theorem traces_trace (hl : f.Linked T S) (hs : f.Stamped T) (hv : f.side? v ≠ none) :
    f.Traces T v (trace T n f v) := by
  rcases hl.ends hv with ⟨d, hd⟩ | hadrift
  · obtain ⟨g, hg⟩ := hd.probed hs hd.le_card
    have hprobe := hg.probe 0
    rw [Nat.zero_add] at hprobe
    rw [show trace T n f v = (some d, (trace T n f v).2) from Prod.ext hg.fst_trace rfl]
    exact .found hprobe hg.note
  · obtain ⟨hprobe, htrace⟩ := hadrift.ends_probe hs 0
    rw [htrace]
    exact .lost hprobe

end Forest

namespace Repair

/-! ## The line of orphans

The loop over the orphans has the states that `Repair.Visited` lists. At each of them the invariant
of the pass holds, and within a round each search for a distance starts from a forest in which only
right distances have been noted (`Forest.Asks.noted`), so that it ends. -/

/-- **The loop over the orphans ends** with the forest mended. -/
theorem ends_round (T : Topology n m) (S : Support n m) (r : Repair n m) :
    Loop.Ends (fun r => (round T S r).toSum) r (r.run T S) := by
  induction r using Repair.run.induct T S with
  | case1 r r' hround =>
    rw [run_of_done hround]
    refine .last ?_
    rw [hround]
    rfl
  | case2 r r' hround ih =>
    rw [run_of_more hround]
    refine .next ?_ ih
    rw [hround]
    rfl

/-- **The states of an adoption pass**, before each round and at its end. -/
inductive Visited (T : Topology n m) (S : Support n m) (r : Repair n m) : Repair n m → Prop
  /-- The pass begins with the forest given. -/
  | begin : Visited T S r r
  /-- It goes on in rounds. -/
  | round {r' : Repair n m} (h : Visited T S r r') : Visited T S r (round T S r').state

/-- **A round looks for the distance of a node** in a forest: the node is a neighbour of
the orphan that is settled, from which flow can still run to it, and the neighbours over
arcs with smaller numbers have been weighed. -/
inductive Asks (T : Topology n m) (S : Support n m) (r : Repair n m) : Forest n m → Fin n → Prop
  | weigh {v : Fin n} {orphans : Deque (Fin n)} {s : Side} {a : Arc m} {before after : List (Arc m)}
      {f : Forest n m} {best : Option (Arc m × Nat)}
      (hpop : r.forest.orphans.popFront? = some (v, orphans))
      (hplace : r.forest.place v = .tree s .orphan)
      (hterminal : S.terminal v ≠ some s)
      (harcs : T.out v = before ++ a :: after)
      (hbefore : before.foldl (Forest.weigh T S s) ({ r.forest with orphans }, none) = (f, best))
      (hlive : S.live s a = true)
      (hside : f.side? (T.head a) = some s) : Asks T S r f (T.head a)

variable {r r' : Repair n m} {current : Option (Fin n)} {f : Forest n m} {u : Fin n}

/-- **What one round does** to a forest under repair, whether it is the last one or not. -/
theorem state_round_mending (hr : r.forest.Mending T S current none) :
    (round T S r).state.forest.Mending T S current none
      ∧ Forest.Mended T r.forest (round T S r).state.forest := by
  cases hround : round T S r with
  | done r' =>
    obtain ⟨rfl, _⟩ := round_done hr hround
    exact ⟨hr, .refl _⟩
  | more r' => exact round_mending hr hround

/-- The invariant holds at every state of a pass, and what lies before has mended the
forest. -/
theorem Visited.mending (h : Visited T S r r') (hr : r.forest.Mending T S current none) :
    r'.forest.Mending T S current none ∧ Forest.Mended T r.forest r'.forest := by
  induction h with
  | begin => exact ⟨hr, .refl _⟩
  | round _ ih =>
    obtain ⟨hmending, hmended⟩ := ih
    obtain ⟨hnext, hstep⟩ := state_round_mending hmending
    exact ⟨hnext, hmended.trans hstep⟩

/-- A state of what remains of a pass is a state of the pass. -/
theorem Visited.trans {r'' : Repair n m} (h : Visited T S r r') (h' : Visited T S r' r'') :
    Visited T S r r'' := by
  induction h' with
  | begin => exact h
  | round _ ih => exact ih.round

/-- The end of a pass is the last of its states. -/
theorem visited_run (T : Topology n m) (S : Support n m) (r : Repair n m) :
    Visited T S r (r.run T S) := by
  induction r using Repair.run.induct T S with
  | case1 r r' hround =>
    have hstep : Visited T S r (round T S r).state := .round .begin
    rw [hround] at hstep
    rwa [run_of_done hround]
  | case2 r r' hround ih =>
    have hstep : Visited T S r (round T S r).state := .round .begin
    rw [hround] at hstep
    rw [run_of_more hround]
    exact hstep.trans ih

/-- The forest in which a round looks for a distance has the trees that there are before the
round, and what has been noted there is right. -/
theorem Asks.noted (h : Asks T S r f u) (hr : r.forest.Mending T S current none) :
    (∀ v, f.place v = r.forest.place v) ∧ f.Stamped T ∧ f.side? u ≠ none := by
  obtain @⟨v, orphans, s, a, before, after, f, best, hpop, _, _, harcs, hbefore, _, hside⟩ := h
  obtain ⟨_, hheld, _⟩ := hr.pop hpop
  have hweighed := (Forest.Weighed.nil (S := S) (v := v) (s := s) hheld.stamped).foldl
    hheld.linked fun b hb => Topology.mem_out.1 (harcs ▸ List.mem_append_left _ hb)
  rw [hbefore] at hweighed
  refine ⟨hweighed.alike.place, hweighed.stamped, ?_⟩
  rw [hside]
  exact Option.some_ne_none s

/-- **Every search for a distance in a pass ends.** -/
theorem Asks.traces (h : Asks T S r f u) (hr : r.forest.Mending T S current none) :
    f.Traces T u (Forest.trace T n f u) := by
  obtain ⟨hplace, hstamped, htree⟩ := h.noted hr
  exact Forest.traces_trace (hr.linked.of_place hplace) hstamped htree

end Repair

end MinCut
