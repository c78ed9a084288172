import MinCut.Proofs.Forest.Growth

/-!
# What a scan does, told from the forest before it

A scan decides arc by arc, and what it has done at one arc is there when it looks at the next. A
free node that has joined the tree is met as a node of the own tree from then on. It could not
have been a bridge before, and is none now. So the scan ends where the forest before says, and
the nodes that join are the free nodes before this arc, each over the first arc that leads to it
(`Forest.Grows`, `Forest.grows_scan`).

Which arcs a tree could grow along does not change meanwhile, and is any predicate here.
-/

namespace MinCut

/-- **The way a tree grows along an arc** that leaves one of its nodes: the source's tree along
the arc, the sink's against it. -/
def Side.outward {m : Nat} : Side → Arc m → Arc m
  | source, a => a
  | sink, a => a.sister

/-- No side is its own opposite. -/
theorem Side.ne_opposite (s : Side) : s ≠ s.opposite := by
  cases s <;> decide

/-- A tree grows outward along the arc over which flow would run. -/
theorem Side.carrier_sister_eq_outward {m : Nat} (s : Side) (a : Arc m) :
    s.carrier a.sister = s.outward a := by
  cases s
  · exact a.sister_sister
  · rfl

namespace Forest

variable {n m : Nat} {T : Topology n m} {S : Support n m} {f g : Forest n m}
variable {live : Arc m → Bool} {side : Side} {stamp distance : Nat}
variable {a : Arc m} {arcs : List (Arc m)} {bridge? : Option (Arc m)} {u v : Fin n}

/-! ## Arcs of the forest before -/

/-- The arc joins a tree to the other one. -/
def bridges (f : Forest n m) (T : Topology n m) (live : Arc m → Bool) (side : Side) (a : Arc m) :
    Bool :=
  live a && decide (f.side? (T.head a) = some side.opposite)

/-- The arc joins a tree to a free node. -/
def sprouts (f : Forest n m) (T : Topology n m) (live : Arc m → Bool) (a : Arc m) : Bool :=
  live a && decide (f.side? (T.head a) = none)

/-- **The arcs that come before the first bridge**, or all if there is no bridge. -/
def passed (f : Forest n m) (T : Topology n m) (live : Arc m → Bool) (side : Side)
    (arcs : List (Arc m)) : List (Arc m) :=
  arcs.takeWhile fun a => !f.bridges T live side a

/-- **The arcs to free nodes** that come before the first bridge. -/
def offshoots (f : Forest n m) (T : Topology n m) (live : Arc m → Bool) (side : Side)
    (arcs : List (Arc m)) : List (Arc m) :=
  (f.passed T live side arcs).filter (f.sprouts T live)

/-- The first arc that leads to a node among those to free nodes. -/
def offshoot? (f : Forest n m) (T : Topology n m) (live : Arc m → Bool) (side : Side)
    (arcs : List (Arc m)) (u : Fin n) : Option (Arc m) :=
  (f.offshoots T live side arcs).find? fun a => decide (T.head a = u)

/-- **The free nodes that arcs before the first bridge lead to**, in the order in which they come
first. -/
def newcomers (f : Forest n m) (T : Topology n m) (live : Arc m → Bool) (side : Side)
    (arcs : List (Arc m)) : List (Fin n) :=
  ((f.offshoots T live side arcs).map T.head).eraseDups

/-- **What following arcs out of a node comes to**: the forest before says which bridge is found
and what the forest is like afterwards. -/
structure Grows (T : Topology n m) (live : Arc m → Bool) (side : Side) (stamp distance : Nat)
    (arcs : List (Arc m)) (f : Forest n m) (bridge? : Option (Arc m)) (g : Forest n m) :
    Prop where
  /-- The first bridge is found, and given from the source's tree to the sink's. -/
  bridge : bridge? = (arcs.find? (f.bridges T live side)).map side.outward
  /-- The newcomers hang from the first arcs that lead to them, and wait. All other labels stay
  what they were. -/
  label (u : Fin n) : g.label u =
    match f.offshoot? T live side arcs u with
    | some a => ⟨.tree side (.arc a.sister), stamp, distance + 1, true⟩
    | none => f.label u
  /-- Those newcomers that do not wait already join the queue. -/
  queue : g.queue.toList = f.queue.toList
    ++ (f.newcomers T live side arcs).filter fun u => !(f.label u).active
  /-- The line of orphans is as it was. -/
  orphans : g.orphans = f.orphans
  /-- No time has passed. -/
  time : g.time = f.time

/-! ## One arc more -/

/-- **What the first arc adds** to those that lead to free nodes. -/
theorem offshoots_cons : f.offshoots T live side (a :: arcs)
      = if f.bridges T live side a then []
        else if f.sprouts T live a then a :: f.offshoots T live side arcs
        else f.offshoots T live side arcs := by
  unfold offshoots passed
  rw [List.takeWhile_cons]
  cases f.bridges T live side a with
  | true => rfl
  | false => exact List.filter_cons

/-- With no arc there is nothing to do. -/
theorem Grows.nil : Grows T live side stamp distance [] f none f where
  bridge := rfl
  label _ := rfl
  queue := (List.append_nil _).symm
  orphans := rfl
  time := rfl

/-- An arc that leads neither to a free node nor to the other tree is passed over. -/
theorem Grows.skip (hbridge : f.bridges T live side a = false)
    (hsprout : f.sprouts T live a = false)
    (h : Grows T live side stamp distance arcs f bridge? g) :
    Grows T live side stamp distance (a :: arcs) f bridge? g := by
  have hoffshoots : f.offshoots T live side (a :: arcs) = f.offshoots T live side arcs := by
    rw [offshoots_cons, hbridge, hsprout]
    rfl
  refine ⟨?_, fun u => ?_, ?_, h.orphans, h.time⟩
  · rw [h.bridge, List.find?_cons, hbridge]
  · rw [h.label, offshoot?, offshoot?, hoffshoots]
  · rw [h.queue, newcomers, newcomers, hoffshoots]

/-- At a bridge it is over. -/
theorem Grows.found (hbridge : f.bridges T live side a = true) :
    Grows T live side stamp distance (a :: arcs) f (some (side.outward a)) f := by
  have hoffshoots : f.offshoots T live side (a :: arcs) = [] := by
    rw [offshoots_cons, if_pos hbridge]
  refine ⟨?_, fun u => ?_, ?_, rfl, rfl⟩
  · rw [List.find?_cons, hbridge]
    rfl
  · rw [offshoot?, hoffshoots]
    rfl
  · rw [newcomers, hoffshoots]
    exact (List.append_nil _).symm

/-! ## A free node joins the tree

What a scan finds over the arcs that are left is described by functions of the forest: the bridges,
the offshoots and the newcomers. When a free node has joined the tree, each of these functions is
what it was but for this node. -/

/-- The forest with a free node hung into a tree and queued. -/
def sprouted (f : Forest n m) (u : Fin n) (side : Side) (a : Arc m) (stamp distance : Nat) :
    Forest n m :=
  (f.attach u side (.arc a) stamp distance).activate u

/-- The node is in the tree, and all others are where they were. -/
theorem side?_sprouted (w : Fin n) : (f.sprouted u side a stamp distance).side? w
      = if w = u then some side else f.side? w := by
  unfold sprouted
  rw [side?_activate, side?_attach]

/-- Its label is new, and the others are as they were. -/
theorem label_sprouted (w : Fin n) : (f.sprouted u side a stamp distance).label w
      = if w = u then ⟨.tree side (.arc a), stamp, distance, true⟩ else f.label w := by
  unfold sprouted
  rw [label_activate, label_attach, label_attach, if_pos rfl]
  by_cases hw : w = u
  · rw [if_pos hw, if_pos hw]
  · rw [if_neg hw, if_neg hw, if_neg hw]

/-- It joins the queue, unless it waits already. -/
theorem queue_sprouted : (f.sprouted u side a stamp distance).queue.toList
      = f.queue.toList ++ [u].filter fun u => !(f.label u).active := by
  unfold sprouted activate
  rw [label_attach, if_pos rfl, List.filter_singleton]
  cases (f.label u).active with
  | true => exact (List.append_nil _).symm
  | false => exact Deque.toList_pushBack f.queue u

/-- **The bridges are what they were**: a node of the own tree is none of the other. -/
theorem bridges_sprouted (hu : f.side? u = none) :
    (f.sprouted u side a stamp distance).bridges T live side = f.bridges T live side := by
  funext b
  unfold bridges
  rw [side?_sprouted]
  by_cases hb : T.head b = u
  · -- it was free, and is in the own tree now
    simp [hb, hu, side.ne_opposite]
  · rw [if_neg hb]

/-- The arcs to free nodes are those that do not lead to the node that has joined. -/
theorem offshoots_sprouted (hu : f.side? u = none) :
    (f.sprouted u side a stamp distance).offshoots T live side arcs
      = (f.offshoots T live side arcs).filter fun b => !decide (T.head b = u) := by
  unfold offshoots passed
  rw [bridges_sprouted hu, List.filter_filter]
  congr 1
  funext b
  unfold sprouts
  rw [side?_sprouted]
  by_cases hb : T.head b = u
  · simp [hb]
  · simp [hb]

/-- Nothing leads to the node any more that has joined. -/
theorem offshoot?_sprouted (hu : f.side? u = none) (w : Fin n) :
    (f.sprouted u side a stamp distance).offshoot? T live side arcs w
      = if w = u then none else f.offshoot? T live side arcs w := by
  unfold offshoot?
  rw [offshoots_sprouted hu, List.find?_filter]
  by_cases hw : w = u
  · subst hw
    rw [if_pos rfl, List.find?_eq_none]
    intro b _
    simp
  · rw [if_neg hw]
    congr 1
    funext b
    by_cases hb : T.head b = w
    · simp [hb, hw]
    · simp [hb]

/-- It is no newcomer any more. -/
theorem newcomers_sprouted (hu : f.side? u = none) :
    (f.sprouted u side a stamp distance).newcomers T live side arcs
      = (((f.offshoots T live side arcs).map T.head).filter fun w => !w == u).eraseDups := by
  unfold newcomers
  rw [offshoots_sprouted hu, List.filter_map]
  rfl

/-- Which of the later ones join the queue is decided by the flags of before. -/
theorem filter_newcomers_sprouted (hu : f.side? u = none) :
    ((f.sprouted u side a stamp distance).newcomers T live side arcs).filter
        (fun w => !((f.sprouted u side a stamp distance).label w).active)
      = ((f.sprouted u side a stamp distance).newcomers T live side arcs).filter
        fun w => !(f.label w).active := by
  refine List.filter_congr fun w hw => ?_
  rw [newcomers_sprouted hu, List.mem_eraseDups, List.mem_filter] at hw
  have hne : w ≠ u := by simpa using hw.2
  rw [label_sprouted, if_neg hne]

/-- **A free node joins the tree**, and the other arcs are followed then. -/
theorem Grows.sprout (hlive : live a = true) (hfree : f.side? (T.head a) = none)
    (h : Grows T live side stamp distance arcs
      (f.sprouted (T.head a) side a.sister stamp (distance + 1)) bridge? g) :
    Grows T live side stamp distance (a :: arcs) f bridge? g := by
  have hbridge : f.bridges T live side a = false := by simp [bridges, hfree]
  have hsprout : f.sprouts T live a = true := by simp [sprouts, hlive, hfree]
  have hoffshoots : f.offshoots T live side (a :: arcs) = a :: f.offshoots T live side arcs := by
    rw [offshoots_cons, hbridge, hsprout]
    rfl
  -- bridge, labels and queue; the rest is not concerned
  refine ⟨?_, fun u => ?_, ?_, ?_, ?_⟩
  · rw [h.bridge, bridges_sprouted hfree, List.find?_cons, hbridge]
  · -- to the node that joins, no arc comes before this one
    have hfirst : f.offshoot? T live side (a :: arcs) u
        = if u = T.head a then some a else f.offshoot? T live side arcs u := by
      rw [offshoot?, hoffshoots, List.find?_cons]
      by_cases hu : u = T.head a
      · rw [if_pos hu, decide_eq_true hu.symm]
      · rw [if_neg hu, decide_eq_false (Ne.symm hu)]
        rfl
    rw [h.label, offshoot?_sprouted hfree, label_sprouted, hfirst]
    by_cases hu : u = T.head a
    · rw [if_pos hu, if_pos hu, if_pos hu]
    · rw [if_neg hu, if_neg hu, if_neg hu]
  · -- it is the first newcomer, and arcs that lead to it again make no other
    have hfirst : f.newcomers T live side (a :: arcs) = T.head a ::
        (f.sprouted (T.head a) side a.sister stamp (distance + 1)).newcomers T live side arcs := by
      rw [newcomers_sprouted hfree, newcomers, hoffshoots, List.map_cons, List.eraseDups_cons]
    rw [h.queue, queue_sprouted, filter_newcomers_sprouted hfree, hfirst, List.append_assoc,
      ← List.filter_append]
    rfl
  · rw [h.orphans]
    exact orphans_activate _ _
  · rw [h.time]
    exact time_activate _ _

/-! ## All arcs -/

/-- **Following arcs in a forest**, one after the other. -/
theorem grows_scan (arcs : List (Arc m)) (f : Forest n m) :
    Grows T (fun a => S.live side a.sister) side stamp distance arcs f
      (scan T S side stamp distance arcs f).1 (scan T S side stamp distance arcs f).2 := by
  induction arcs, f using scan.induct T S side stamp distance with
  | case1 f => exact .nil
  | case2 a arcs f hlive hfree child g ih =>
    rw [scan, if_pos hlive, hfree]
    exact ih.sprout hlive hfree
  | case3 a arcs f hlive hside ih =>
    -- a node of the own tree, perhaps one that has joined on the way
    rw [scan, if_pos hlive, hside]
    dsimp only
    rw [if_pos rfl]
    exact ih.skip (by simp [bridges, hside, side.ne_opposite]) (by simp [sprouts, hside])
  | case4 a arcs f hlive other hside hother =>
    rw [scan, if_pos hlive, hside]
    dsimp only
    rw [if_neg hother, Side.carrier_sister_eq_outward]
    exact .found (by simp [bridges, hlive, hside, Side.eq_opposite_of_ne hother])
  | case5 a arcs f hdead ih =>
    rw [scan, if_neg hdead]
    exact ih.skip (by simp [bridges, hdead]) (by simp [sprouts, hdead])

/-- **The nodes that join** are the free ones that arcs before the first bridge lead to. -/
theorem Grows.joins_iff (h : Grows T live side stamp distance arcs f bridge? g) :
    f.side? u = none ∧ g.side? u ≠ none
      ↔ f.side? u = none ∧ ∃ a ∈ f.passed T live side arcs, live a = true ∧ T.head a = u := by
  refine and_congr_right fun hfree => ?_
  have hside : g.side? u ≠ none ↔ (f.offshoot? T live side arcs u).isSome = true := by
    unfold side? at hfree ⊢
    rw [h.label]
    cases f.offshoot? T live side arcs u with
    | none => simp [hfree]
    | some a => simp
  rw [hside, offshoot?, List.find?_isSome]
  refine exists_congr fun a => ?_
  rw [offshoots, List.mem_filter, and_assoc]
  refine and_congr_right fun _ => ?_
  rw [sprouts, Bool.and_eq_true, decide_eq_true_iff, decide_eq_true_iff, and_assoc]
  refine and_congr_right fun _ => ⟨And.right, fun ha => ⟨?_, ha⟩⟩
  rw [ha]
  exact hfree

/-- **Scanning a node of a tree.** -/
theorem grows_grow (hv : f.side? v = some side) :
    Grows T (fun a => S.live side a.sister) side (f.label v).stamp (f.label v).distance (T.out v) f
      (f.grow T S v).1 (f.grow T S v).2 := by
  obtain ⟨l, hplace⟩ := exists_place_of_side? hv
  have hgrow : f.grow T S v
      = scan T S side (f.label v).stamp (f.label v).distance (T.out v) f := by
    unfold grow
    rw [show (f.label v).place = .tree side l from hplace]
  rw [hgrow]
  exact grows_scan (T.out v) f

end Forest

end MinCut
