import MinCut.Forest.Growth
import MinCut.Proofs.Forest.Activation
import MinCut.Proofs.Forest.Attachment

/-!
# What selecting and scanning a node guarantees

Between two turns the forest is sound. Selecting a node clears its flag, so that
the node is neither active nor known to be quiet, and the forest stays sound
with that one exception (`Forest.select_spec`). Scanning hangs the free
neighbours of the node into its tree. No inactive node of either tree could have
grown into them, so nothing but the node scanned can have become loud; and once
its arcs have been followed to the end without finding a bridge, it is quiet too
(`Forest.grow_spec`).

The nodes that are active or free are those that may still be scanned without
finding anything. Selecting and scanning never add one, and the node scanned is
none any more; this is what ends the search.

A scan is told arc by arc, from the front of the list (`Forest.Scan.cons`). What has been found out
about an arc is that the other end is in the own tree, and since trees only grow this is still true
when the scan has come to its end.
-/

namespace MinCut

namespace Forest

variable {n m : Nat} {T : Topology n m} {S : Support n m} {f g h : Forest n m}
variable {current : Option (Fin n)} {v : Fin n} {s : Side}

/-- In a sound forest every node of a tree has a depth. -/
theorem Sound.exists_depth {busy : Option (Fin n)} (hf : f.Sound T S current busy)
    (hv : f.side? v ≠ none) : ∃ d, f.Depth T v d := by
  rcases hf.linked.ends hv with hd | had
  · exact hd
  · obtain ⟨u, hu⟩ := had.exists_orphan
    exact absurd hu (hf.link?_ne_orphan u)

/-- A node with nothing to grow into need not be excepted. -/
theorem Sound.finish (hf : f.Sound T S current (some v))
    (hv : ∀ s, f.side? v = some s → ∀ a, T.tail a = v → S.live s a.sister = true →
      f.side? (T.head a) = some s) :
    f.Sound T S current none := by
  refine ⟨hf.linked, hf.stamped, hf.waiting, fun w s hw hidle _ a ha hlive => ?_, hf.claimed,
    hf.link?_ne_orphan, hf.orphans_eq_nil⟩
  by_cases h : w = v
  · subst h
    exact hv s hw a ha hlive
  · refine hf.quiet hw hidle ?_ ha hlive
    rintro ⟨⟩
    exact h rfl

/-! ## Selecting

Nodes are taken off the queue until one is in a tree. A free node that is passed over has nothing to
grow into, so that the forest stays sound without its flag. The recursion of `Forest.nextActive` is
on the queue, and so is the induction. -/

/-- Clearing the flag of the node that is to be scanned, which is the current
one or has been taken off the queue. -/
theorem Sound.dequeue {queue : Deque (Fin n)} (hf : f.Sound T S current none)
    (hnodup : queue.toList.Nodup)
    (hqueue : ∀ w, w ∈ queue.toList ↔ w ≠ v ∧ (w ∈ f.queue.toList ∨ current = some w)) :
    (f.dequeue v queue).Sound T S none (some v) := by
  have hplace (w : Fin n) : (f.dequeue v queue).place w = f.place w := place_flag f v w false
  have hstamped : (f.dequeue v queue).Stamped T := by
    refine (hf.stamped.flag v false).congr (fun _ => rfl) (fun _ => rfl) rfl (fun _ hw => hw) ?_
    exact fun _ _ hd => hd.congr fun _ _ _ => by rfl
  refine ⟨hf.linked.of_place hplace, hstamped, ⟨hnodup, fun w => ?_, fun h => absurd h (by simp)⟩,
    fun w r hw hidle hbusy a ha hlive => ?_, hf.claimed.congr fun w => side?_dequeue f v w queue,
    fun w => ?_, hf.orphans_eq_nil⟩
  · show _ ↔ w ∈ queue.toList ∨ none = some w
    rw [label_dequeue, label_flag, hqueue]
    by_cases h : w = v
    · simp [h]
    · rw [if_neg h, hf.waiting.active_iff]
      simp [h]
  · rw [side?_dequeue] at hw ⊢
    have hne : w ≠ v := by
      rintro rfl
      exact hbusy rfl
    rw [label_dequeue, label_flag, if_neg hne] at hidle
    exact hf.quiet hw hidle (by simp) ha hlive
  · rw [link?_eq, hplace]
    exact hf.link?_ne_orphan w

/-- **What is known of a node that has been selected** from a forest, and of the
forest then. -/
structure Selected (T : Topology n m) (S : Support n m) (f : Forest n m) (v : Fin n)
    (g : Forest n m) : Prop where
  /-- The forest is sound, with the node as one that may be loud. -/
  sound : g.Sound T S none (some v)
  /-- No node has moved. -/
  place (w : Fin n) : g.place w = f.place w
  /-- No time has passed. -/
  time : g.time = f.time
  /-- The node is in a tree. -/
  side?_ne_none : g.side? v ≠ none
  /-- It waited to be scanned and waits no more. -/
  was_active : (f.label v).active = true
  /-- Its flag has been cleared. -/
  active_eq_false : (g.label v).active = false
  /-- No other node starts to wait. -/
  active_le {w : Fin n} : (g.label w).active = true → (f.label w).active = true

/-- What is known of a forest in which there is nothing left to scan. -/
structure Exhausted (T : Topology n m) (S : Support n m) (f g : Forest n m) : Prop where
  /-- The forest is sound without exception. -/
  sound : g.Sound T S none none
  /-- No node has moved. -/
  place (w : Fin n) : g.place w = f.place w
  /-- No time has passed. -/
  time : g.time = f.time
  /-- No node waits. -/
  queue_eq_nil : g.queue.toList = []

/-- A node that is active after another has been taken off the queue was active before. -/
theorem active_dequeue_le {queue : Deque (Fin n)} {w : Fin n}
    (hw : ((f.dequeue v queue).label w).active = true) : (f.label w).active = true := by
  rw [label_dequeue, label_flag] at hw
  split at hw
  · exact absurd hw Bool.false_ne_true
  · exact hw

/-- A node in a tree whose flag has been cleared is selected. -/
theorem Sound.selected {queue : Deque (Fin n)}
    (hg : (f.dequeue v queue).Sound T S none (some v)) (hv : f.side? v ≠ none)
    (hactive : (f.label v).active = true) : f.Selected T S v (f.dequeue v queue) where
  sound := hg
  place w := place_flag f v w false
  time := rfl
  side?_ne_none := by rwa [side?_dequeue]
  was_active := hactive
  active_eq_false := by rw [label_dequeue, label_flag, if_pos rfl]
  active_le := active_dequeue_le

/-- Passing over a free node: it has nothing to grow into. -/
theorem Sound.pass {queue : Deque (Fin n)}
    (hg : (f.dequeue v queue).Sound T S none (some v)) (hv : ¬(f.side? v).isSome = true) :
    (f.dequeue v queue).Sound T S none none := by
  refine hg.finish fun s hs => absurd ?_ hv
  rw [← side?_dequeue f v v queue, hs]
  rfl

/-- What is selected after a free node has been passed over is selected. -/
theorem Selected.of_dequeue {queue : Deque (Fin n)} {w : Fin n}
    (h : (f.dequeue v queue).Selected T S w g) : f.Selected T S w g where
  sound := h.sound
  place u := (h.place u).trans (place_flag f v u false)
  time := h.time
  side?_ne_none := h.side?_ne_none
  was_active := active_dequeue_le h.was_active
  active_eq_false := h.active_eq_false
  active_le hu := active_dequeue_le (h.active_le hu)

/-- If nothing is left after that, nothing is left. -/
theorem Exhausted.of_dequeue {queue : Deque (Fin n)}
    (h : (f.dequeue v queue).Exhausted T S g) : f.Exhausted T S g where
  sound := h.sound
  place u := (h.place u).trans (place_flag f v u false)
  time := h.time
  queue_eq_nil := h.queue_eq_nil

/-- An empty queue gives no node. -/
theorem nextActive_of_none (h : f.queue.popFront? = none) : f.nextActive = (none, f) := by
  rw [nextActive]
  split
  · rfl
  · rename_i h'
    exact absurd (h.symm.trans h') (by simp)

/-- The first node of the queue is given or passed over. -/
theorem nextActive_of_some {queue : Deque (Fin n)}
    (h : f.queue.popFront? = some (v, queue)) :
    f.nextActive = if (f.side? v).isSome then (some v, f.dequeue v queue)
      else (f.dequeue v queue).nextActive := by
  rw [nextActive]
  split
  · rename_i h'
    exact absurd (h.symm.trans h') (by simp)
  · rename_i v' queue' h'
    obtain ⟨rfl, rfl⟩ := Prod.mk.inj (Option.some.inj (h.symm.trans h'))
    rw [← side?_dequeue f v v queue]

/-- Taking the first node off the queue. -/
theorem Sound.pop {queue : Deque (Fin n)} (hf : f.Sound T S none none)
    (h : f.queue.popFront? = some (v, queue)) :
    (f.dequeue v queue).Sound T S none (some v) ∧ (f.label v).active = true := by
  have hlist := Deque.toList_of_popFront? h
  have hnodup := hf.waiting.nodup
  rw [hlist, List.nodup_cons] at hnodup
  refine ⟨hf.dequeue hnodup.2 fun w => ?_, (hf.waiting.active_iff v).2 ?_⟩
  · rw [hlist, List.mem_cons]
    constructor
    · intro hw
      refine ⟨?_, .inl (.inr hw)⟩
      rintro rfl
      exact hnodup.1 hw
    · rintro ⟨hne, (rfl | hw) | hnone⟩
      · exact absurd rfl hne
      · exact hw
      · exact absurd hnone (by simp)
  · rw [hlist]
    exact .inl List.mem_cons_self

/-- **The queue gives the first of its nodes that is in a tree**, or is empty
afterwards. -/
theorem nextActive_spec (hf : f.Sound T S none none) :
    (∀ v, f.nextActive.1 = some v → f.Selected T S v f.nextActive.2)
      ∧ (f.nextActive.1 = none → f.Exhausted T S f.nextActive.2) := by
  -- over the queue, as the function recurses
  induction f using nextActive.induct with
  | case1 f hpop =>
    rw [nextActive_of_none hpop]
    exact ⟨fun v hv => absurd hv (by simp), fun _ =>
      ⟨hf, fun _ => rfl, rfl, Deque.popFront?_eq_none_iff.1 hpop⟩⟩
  | case2 f v queue hpop g hside =>
    obtain ⟨hg, hactive⟩ := hf.pop hpop
    have hv : (f.side? v).isSome = true := by rwa [← side?_dequeue f v v queue]
    rw [nextActive_of_some hpop, if_pos hv]
    refine ⟨fun w hw => ?_, fun h => absurd h (by simp)⟩
    obtain rfl : v = w := Option.some.inj hw
    exact Sound.selected hg (Option.isSome_iff_ne_none.1 hv) hactive
  | case3 f v queue hpop g hside ih =>
    obtain ⟨hg, hactive⟩ := hf.pop hpop
    have hv : ¬(f.side? v).isSome = true := by rwa [← side?_dequeue f v v queue]
    obtain ⟨hsome, hnone⟩ := ih (hg.pass hv)
    rw [nextActive_of_some hpop, if_neg hv]
    exact ⟨fun w hw => (hsome w hw).of_dequeue, fun h => (hnone h).of_dequeue⟩

/-- **Selecting the node to be scanned**: the current one while it is in a tree,
or else the next of the queue. -/
theorem select_spec (hf : f.Sound T S current none) :
    (∀ v, (f.select current).1 = some v → f.Selected T S v (f.select current).2)
      ∧ ((f.select current).1 = none → f.Exhausted T S (f.select current).2) := by
  cases current with
  | none => exact nextActive_spec hf
  | some v =>
    -- the current node is not queued, so that clearing its flag is like taking it off
    have hg : (f.dequeue v f.queue).Sound T S none (some v) := by
      refine hf.dequeue hf.waiting.nodup fun w => ?_
      constructor
      · intro hw
        refine ⟨?_, .inl hw⟩
        rintro rfl
        exact hf.waiting.not_queued rfl hw
      · rintro ⟨hne, hw | hw⟩
        · exact hw
        · exact absurd (Option.some.inj hw).symm hne
    have hactive : (f.label v).active = true := (hf.waiting.active_iff v).2 (.inr rfl)
    have hselect : f.select (some v) = if (f.side? v).isSome then (some v, f.dequeue v f.queue)
        else (f.dequeue v f.queue).nextActive := by
      unfold Forest.select
      rw [← side?_flag f v v false]
      rfl
    rw [hselect]
    split
    · rename_i hv
      refine ⟨fun w hw => ?_, fun h => absurd h (by simp)⟩
      obtain rfl : v = w := Option.some.inj hw
      exact Sound.selected hg (Option.isSome_iff_ne_none.1 hv) hactive
    · rename_i hv
      -- it has left the trees, and the queue is asked
      obtain ⟨hsome, hnone⟩ := nextActive_spec (hg.pass hv)
      exact ⟨fun w hw => (hsome w hw).of_dequeue, fun h => (hnone h).of_dequeue⟩

/-! ## Scanning

The arcs of the node are followed one by one, and after each it is known of it what became of its
other end (`Forest.Followed`). Hanging a free node into the tree takes nothing away from that, since
the nodes that are in a tree stay there (`Forest.Grown`). If all arcs have been followed without a
bridge, the node has nothing to grow into any more. -/

/-- **What growth leaves alone.** -/
structure Grown (f g : Forest n m) : Prop where
  /-- Nodes of the trees stay where they are. -/
  place {w : Fin n} : f.side? w ≠ none → g.place w = f.place w
  /-- Only nodes that were free become active. -/
  active {w : Fin n} : (g.label w).active = true → (f.label w).active = true ∨ f.side? w = none
  /-- No time passes. -/
  time : g.time = f.time

namespace Grown

/-- A scan that finds nothing leaves everything alone. -/
theorem refl (f : Forest n m) : Grown f f := ⟨fun _ => rfl, .inl, rfl⟩

/-- A node of a tree is in it afterwards. -/
theorem side? (hfg : Grown f g) {w : Fin n} {r : Side} (hw : f.side? w = some r) :
    g.side? w = some r := by
  rw [side?_eq, hfg.place (by rw [hw]; exact Option.some_ne_none r)]
  exact hw

/-- Its chain is what it was. -/
theorem depth (hfg : Grown f g) {d : Nat} (hd : f.Depth T v d) : g.Depth T v d :=
  hd.congr fun _ _ hu => congrArg Place.link? (hfg.place hu.side?_ne_none)

/-- Growth goes on. -/
theorem trans (hfg : Grown f g) (hgh : Grown g h) : Grown f h where
  place {w} hw := by
    obtain ⟨r, hr⟩ := Option.ne_none_iff_exists'.1 hw
    refine (hgh.place ?_).trans (hfg.place hw)
    rw [hfg.side? hr]
    exact Option.some_ne_none r
  active {w} hw := by
    rcases hgh.active hw with hg | hfree
    · exact hfg.active hg
    · right
      by_contra hf
      obtain ⟨r, hr⟩ := Option.ne_none_iff_exists'.1 hf
      exact absurd (hfree.symm.trans (hfg.side? hr)) (by simp)
  time := hgh.time.trans hfg.time

end Grown

/-- Hanging a free node into the tree and queueing it. -/
theorem Grown.sprout {l : Link m} {t d : Nat} (hv : f.side? v = none) :
    Grown f ((f.attach v s l t d).activate v) where
  place {w} hw := by
    rw [place_activate, place_attach, if_neg]
    rintro rfl
    exact hw hv
  active {w} hw := by
    rw [active_activate, active_attach] at hw
    rcases hw with rfl | hw
    · exact .inr hv
    · exact .inl hw
  time := time_activate _ v

/-- **A free node that has been hung from a foothold and queued** leaves the
forest sound. -/
theorem Sound.sprout {busy : Option (Fin n)} {l : Link m} {t d e : Nat}
    (hf : f.Sound T S current busy) (hv : f.side? v = none) (hl : f.Foothold T S v s l d)
    (ht : t ≤ f.time) (he : t = f.time → e = d) :
    ((f.attach v s l t e).activate v).Sound T S current busy := by
  have hnone (k : Nat) : ¬f.Depth T v k := fun hk => hk.side?_ne_none hv
  have hgrown := Grown.sprout (s := s) (l := l) (t := t) (d := e) hv
  have hne {w : Fin n} {r : Side} (hw : f.side? w = some r) : w ≠ v := by
    rintro rfl
    exact absurd (hv.symm.trans hw) (by simp)
  refine ⟨?_, ?_, ?_, fun w r hw hidle hbusy a ha hlive => ?_, fun w r hw => ?_, fun w => ?_, ?_⟩
  · exact (hf.linked.attach hl hnone (.inl hv)).of_place (place_activate _ v)
  · exact (hf.stamped.attach hl hnone ht he).activate v
  · exact (hf.waiting.congr (fun w => active_attach f v w s l t e) rfl).activate v
  · have hidle' : ¬(w = v ∨ (f.label w).active = true) := by
      rw [← active_attach f v w s l t e, ← active_activate, hidle]
      exact Bool.false_ne_true
    rw [not_or, Bool.not_eq_true] at hidle'
    rw [side?_activate, side?_attach, if_neg hidle'.1] at hw
    exact hgrown.side? (hf.quiet hw hidle'.2 hbusy ha hlive)
  · exact hgrown.side? (hf.claimed hw)
  · rw [link?_eq, place_activate, ← link?_eq, link?_attach]
    split
    · exact fun h => hl.ne_orphan (Option.some.inj h)
    · exact hf.link?_ne_orphan w
  · rw [orphans_activate]
    exact hf.orphans_eq_nil

/-- What a scan has found out about an arc that it has followed: there is a node
of the own tree at its other end, if the tree could grow there at all. -/
def Followed (T : Topology n m) (S : Support n m) (s : Side) (f : Forest n m) (a : Arc m) :
    Prop :=
  S.live s a.sister = true → f.side? (T.head a) = some s

/-- The arc that a scan has ended with: the tree could grow there, but the other
end is in the other tree. -/
def Joined (T : Topology n m) (S : Support n m) (v : Fin n) (s : Side) (f : Forest n m)
    (bridge : Arc m) : Prop :=
  ∃ a, T.tail a = v ∧ bridge = s.carrier a.sister ∧ S.live s a.sister = true
    ∧ f.side? (T.head a) = some s.opposite

/-- **What is known after following some arcs** out of a node, from the forest
before, the bridge found and the forest then. -/
structure Scan (T : Topology n m) (S : Support n m) (v : Fin n) (s : Side)
    (arcs : List (Arc m)) (f : Forest n m) (bridge? : Option (Arc m)) (g : Forest n m) :
    Prop where
  /-- The forest is sound, but for the node scanned, which may be loud. -/
  sound : g.Sound T S none (some v)
  /-- The trees have only grown. -/
  grown : Grown f g
  /-- Without a bridge all arcs have been followed. -/
  followed : bridge? = none → ∀ a ∈ arcs, g.Followed T S s a
  /-- A bridge leads to the other tree. -/
  joined {bridge : Arc m} : bridge? = some bridge → g.Joined T S v s bridge

/-- Following one more arc before the others. -/
theorem Scan.cons {arcs : List (Arc m)} {bridge? : Option (Arc m)} {a : Arc m}
    (hgh : Scan T S v s arcs g bridge? h) (hfg : Grown f g) (ha : h.Followed T S s a) :
    Scan T S v s (a :: arcs) f bridge? h where
  sound := hgh.sound
  grown := hfg.trans hgh.grown
  followed hb b hmem := by
    rcases List.mem_cons.1 hmem with rfl | hmem
    · exact ha
    · exact hgh.followed hb b hmem
  joined := hgh.joined

/-- **Scanning a node** of the tree of a side. -/
theorem scan_spec {stamp distance : Nat} (arcs : List (Arc m))
    (harcs : ∀ a ∈ arcs, T.tail a = v) (hf : f.Sound T S none (some v))
    (hv : f.side? v = some s) (hstamp : stamp ≤ f.time)
    (hdistance : stamp = f.time → f.Depth T v distance) :
    Scan T S v s arcs f (scan T S s stamp distance arcs f).1
      (scan T S s stamp distance arcs f).2 := by
  -- over the arcs, as the scan recurses
  induction arcs, f using scan.induct T S s stamp distance with
  | case1 f =>
    exact ⟨hf, .refl f, fun _ a ha => absurd ha List.not_mem_nil,
      fun hb => absurd hb (by simp [scan])⟩
  | case2 a arcs f hlive hfree child g ih =>
    -- a free node is found: it hangs from the node scanned, which has a depth
    have ha := harcs a List.mem_cons_self
    obtain ⟨k, hk⟩ := hf.exists_depth (by rw [hv]; exact Option.some_ne_none s)
    have hhead : T.head a.sister = v := by rw [T.head_sister, ha]
    have hfoot : f.Foothold T S child s (.arc a.sister) (k + 1) := by
      refine .arc rfl ?_ hlive ?_ <;> rw [hhead]
      · exact hv
      · exact hk
    have hfg : Grown f g := .sprout hfree
    have hg : g.Sound T S none (some v) :=
      hf.sprout hfree hfoot hstamp fun h => by rw [(hdistance h).unique hk]
    have hscan : scan T S s stamp distance (a :: arcs) f = scan T S s stamp distance arcs g := by
      rw [scan, if_pos hlive, hfree]
    have hrest := ih (fun b hb => harcs b (List.mem_cons_of_mem a hb)) hg (hfg.side? hv)
      (by rw [hfg.time]; exact hstamp) fun h => hfg.depth (hdistance (h.trans hfg.time))
    rw [hscan]
    refine hrest.cons hfg fun _ => hrest.grown.side? ?_
    show ((f.attach child s _ _ _).activate child).side? child = some s
    rw [side?_activate, side?_attach, if_pos rfl]
  | case3 a arcs f hlive hside ih =>
    -- the other end is in the own tree already
    have hscan : scan T S s stamp distance (a :: arcs) f = scan T S s stamp distance arcs f := by
      rw [scan, if_pos hlive, hside]
      exact if_pos rfl
    have hrest := ih (fun b hb => harcs b (List.mem_cons_of_mem a hb)) hf hv hstamp hdistance
    rw [hscan]
    exact hrest.cons (.refl f) fun _ => hrest.grown.side? hside
  | case4 a arcs f hlive other hside hother =>
    -- the other tree is found, and the scan ends before the remaining arcs
    have hscan : scan T S s stamp distance (a :: arcs) f = (some (s.carrier a.sister), f) := by
      rw [scan, if_pos hlive, hside]
      exact if_neg hother
    rw [hscan]
    refine ⟨hf, .refl f, fun h => absurd h (by simp), fun hb => ?_⟩
    refine ⟨a, harcs a List.mem_cons_self, (Option.some.inj hb).symm, hlive, ?_⟩
    rw [hside, Side.eq_opposite_of_ne hother]
  | case5 a arcs f hdead ih =>
    -- the tree could not grow along this arc
    have hscan : scan T S s stamp distance (a :: arcs) f = scan T S s stamp distance arcs f := by
      rw [scan, if_neg hdead]
    have hrest := ih (fun b hb => harcs b (List.mem_cons_of_mem a hb)) hf hv hstamp hdistance
    rw [hscan]
    exact hrest.cons (.refl f) fun hlive => absurd hlive hdead

/-- **Scanning the node that has been selected.** Where no bridge is found, the
node is quiet afterwards. -/
theorem grow_spec (hf : f.Sound T S none (some v)) (hv : f.side? v = some s) :
    Scan T S v s (T.out v) f (f.grow T S v).1 (f.grow T S v).2
      ∧ ((f.grow T S v).1 = none → (f.grow T S v).2.Sound T S none none) := by
  obtain ⟨l, hplace⟩ := exists_place_of_side? hv
  have hgrow : f.grow T S v
      = scan T S s (f.label v).stamp (f.label v).distance (T.out v) f := by
    unfold grow
    rw [show (f.label v).place = .tree s l from hplace]
  have htree : f.side? v ≠ none := by
    rw [hv]
    exact Option.some_ne_none s
  have hscan := scan_spec (T.out v) (fun a ha => Topology.mem_out.1 ha) hf hv
    (hf.stamped.stamp_le v) (hf.stamped.depth htree)
  rw [hgrow]
  refine ⟨hscan, fun h => hscan.sound.finish fun r hr a ha hlive => ?_⟩
  obtain rfl : s = r := Option.some.inj ((hscan.grown.side? hv).symm.trans hr)
  exact hscan.followed h a (Topology.mem_out.2 ha) hlive

end Forest

end MinCut
