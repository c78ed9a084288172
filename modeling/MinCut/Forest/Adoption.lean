import MinCut.Forest.Basic
import MinCut.Turn

/-!
# Adoption

An augmentation uses up links, and the nodes below them are cut off as orphans.
Each orphan looks for a new parent in its own tree: a neighbour from which flow
can still reach it and whose own chain of links leads to the terminal, not to
another orphan. Of these it takes the nearest to the terminal, the first in
order of arcs on a tie. Where there is none it is released from the tree, and
its children become orphans in turn.

Tracing a neighbour's chain to the terminal every time would be wasteful. A
chain that has been traced is marked with the present time and the distances
found, and later traces stop at the first marked node (`Forest.trace`). No node
marked in a pass loses its link in that pass, which is why a mark can be
trusted.

The pass ends because every round takes a node out of its tree or leaves the
trees alone and shortens the line of orphans (`Repair.round_decreases`).
-/

namespace MinCut

namespace Forest

variable {n m : Nat}

/-- **Traces a node's chain of links to the terminal**: the number of links,
and the forest in which the chain is marked. A chain that leads to an orphan,
or is longer than the given bound, has no distance and is not marked. -/
def trace (T : Topology n m) : Nat → Forest n m → Fin n → Option Nat × Forest n m
  | 0, f, _ => (none, f)
  | bound + 1, f, v =>
    if (f.label v).stamp = f.time then (some (f.label v).distance, f)
    else
      match f.link? v with
      | some .terminal => (some 1, f.mark v 1)
      | some (.arc a) =>
        match trace T bound f (T.head a) with
        | (some d, f) => (some (d + 1), f.mark v (d + 1))
        | (none, f) => (none, f)
      | _ => (none, f)

/-- A candidate is the arc to a possible parent with the parent's distance. A new one replaces an
old one only if it is strictly nearer, so that of several nearest the first one stays. -/
def nearer (old : Option (Arc m × Nat)) (a : Arc m) (d : Nat) : Option (Arc m × Nat) :=
  match old with
  | some (a₀, d₀) => if d < d₀ then some (a, d) else some (a₀, d₀)
  | none => some (a, d)

/-- Weighs the other end of an arc as a parent. It has to be in the same tree, flow has to be able
to run between it and the orphan, and its chain has to lead to the terminal. -/
def weigh (T : Topology n m) (S : Support n m) (side : Side) :
    Forest n m × Option (Arc m × Nat) → Arc m → Forest n m × Option (Arc m × Nat)
  | (f, best), a =>
    if S.live side a ∧ f.side? (T.head a) = some side then
      match trace T n f (T.head a) with
      | (some d, f) => (f, nearer best a d)
      | (none, f) => (f, best)
    else (f, best)

/-- The best parent for an orphan of a side, among the ends of its arcs. -/
def bestParent (T : Topology n m) (S : Support n m) (side : Side) (f : Forest n m)
    (v : Fin n) : Forest n m × Option (Arc m × Nat) :=
  (T.out v).foldl (weigh T S side) (f, none)

/-- What releasing `v` means for the other end of one of its arcs: it can grow toward `v` later, so
it becomes active; and if it is a child of `v`, it becomes an orphan. Only nodes of the same tree
are concerned. -/
def estrange (T : Topology n m) (S : Support n m) (side : Side) (v : Fin n)
    (f : Forest n m) (a : Arc m) : Forest n m :=
  if f.side? (T.head a) = some side then
    let f := if S.live side a then f.activate (T.head a) else f
    match f.link? (T.head a) with
    | some (.arc up) => if T.head up = v then f.orphanBack (T.head a) else f
    | _ => f
  else f

/-- Releases an orphan of a side for which there is no parent. -/
def expel (T : Topology n m) (S : Support n m) (side : Side) (f : Forest n m)
    (v : Fin n) : Forest n m :=
  ((T.out v).foldl (estrange T S side v) f).release v

/-- How many nodes are in a tree. Each node that is expelled makes this smaller by one. -/
def size (f : Forest n m) : Nat := (List.finRange n).countP fun v => (f.side? v).isSome

/-! ## What a pass leaves alone

The lemmas that follow are what the definition of a pass needs in order to be accepted: they say
that each round makes the forest or the line of orphans smaller. -/

/-- Tracing a chain changes no tree and no waiting line of orphans. -/
theorem trace_keeps (T : Topology n m) (bound : Nat) (f : Forest n m) (v : Fin n) :
    (∀ w, (trace T bound f v).2.side? w = f.side? w)
      ∧ (trace T bound f v).2.orphans = f.orphans := by
  induction bound generalizing v with
  | zero => exact ⟨fun _ => rfl, rfl⟩
  | succ bound ih =>
    unfold trace
    split
    · exact ⟨fun _ => rfl, rfl⟩
    · split
      · exact ⟨fun w => f.side?_mark v w 1, rfl⟩
      · rename_i a _
        obtain ⟨hside, horphans⟩ := ih (T.head a)
        split
        · rename_i d g hrec
          rw [hrec] at hside horphans
          exact ⟨fun w => (g.side?_mark v w _).trans (hside w), horphans⟩
        · rename_i g hrec
          rw [hrec] at hside horphans
          exact ⟨hside, horphans⟩
      · exact ⟨fun _ => rfl, rfl⟩

/-- Weighing a parent changes no tree and no waiting line of orphans. -/
theorem weigh_keeps (T : Topology n m) (S : Support n m) (side : Side)
    (state : Forest n m × Option (Arc m × Nat)) (a : Arc m) :
    (∀ w, (weigh T S side state a).1.side? w = state.1.side? w)
      ∧ (weigh T S side state a).1.orphans = state.1.orphans := by
  obtain ⟨f, best⟩ := state
  obtain ⟨hside, horphans⟩ := trace_keeps T n f (T.head a)
  simp only [weigh]
  split
  · split
    · rename_i d g htrace
      rw [htrace] at hside horphans
      exact ⟨hside, horphans⟩
    · rename_i g htrace
      rw [htrace] at hside horphans
      exact ⟨hside, horphans⟩
  · exact ⟨fun _ => rfl, rfl⟩

/-- Looking for a parent changes no tree and no waiting line of orphans. -/
theorem bestParent_keeps (T : Topology n m) (S : Support n m) (side : Side)
    (f : Forest n m) (v : Fin n) :
    (∀ w, (bestParent T S side f v).1.side? w = f.side? w)
      ∧ (bestParent T S side f v).1.orphans = f.orphans := by
  have hfold (arcs : List (Arc m)) (state : Forest n m × Option (Arc m × Nat)) :
      (∀ w, (arcs.foldl (weigh T S side) state).1.side? w = state.1.side? w)
        ∧ (arcs.foldl (weigh T S side) state).1.orphans = state.1.orphans := by
    induction arcs generalizing state with
    | nil => exact ⟨fun _ => rfl, rfl⟩
    | cons a arcs ih =>
      obtain ⟨hside, horphans⟩ := ih (weigh T S side state a)
      obtain ⟨hside', horphans'⟩ := weigh_keeps T S side state a
      exact ⟨fun w => (hside w).trans (hside' w), horphans.trans horphans'⟩
  exact hfold (T.out v) (f, none)

/-- Dealing with a neighbour changes no tree. Even a child that is cut off stays where it is until
it is settled in its turn. -/
theorem side?_estrange (T : Topology n m) (S : Support n m) (side : Side)
    (v : Fin n) (f : Forest n m) (a : Arc m) (w : Fin n) :
    (estrange T S side v f a).side? w = f.side? w := by
  unfold estrange
  split
  · simp only
    generalize hg : (if S.live side a = true then f.activate (T.head a) else f) = g
    have hgw : g.side? w = f.side? w := by
      subst hg
      split
      · exact f.side?_activate _ w
      · rfl
    split
    · split
      · exact (g.side?_orphanBack _ w).trans hgw
      · exact hgw
    · exact hgw
  · rfl

/-- **Expelling a node** takes it out of its tree, and no other node. -/
theorem side?_expel (T : Topology n m) (S : Support n m) (side : Side)
    (f : Forest n m) (v w : Fin n) :
    (expel T S side f v).side? w = if w = v then none else f.side? w := by
  unfold expel
  rw [side?_release]
  split
  · rfl
  · induction T.out v generalizing f with
    | nil => rfl
    | cons a arcs ih => exact (ih _).trans (side?_estrange T S side v f a w)

/-- Forests with the same nodes in trees have the same size. -/
theorem size_congr {f g : Forest n m} (h : ∀ w, f.side? w = g.side? w) :
    f.size = g.size := by
  simp only [size, h]

/-- **A node fewer in the trees** makes the forest smaller. -/
theorem size_lt_size {f g : Forest n m} {v : Fin n} (hf : f.side? v = none)
    (hg : g.side? v ≠ none) (h : ∀ w, w ≠ v → f.side? w = g.side? w) :
    f.size < g.size := by
  have key (l : List (Fin n)) :
      (l.countP fun w => (f.side? w).isSome) + l.count v
        = l.countP fun w => (g.side? w).isSome := by
    induction l with
    | nil => rfl
    | cons w l ih =>
      rw [List.countP_cons, List.countP_cons, List.count_cons, ← ih]
      by_cases hw : w = v
      · subst hw
        simp [hf, Option.isSome_iff_ne_none.2 hg]
        omega
      · simp [hw, h w hw]
        omega
  have hmem : 0 < (List.finRange n).count v := List.count_pos_iff.2 (List.mem_finRange v)
  have := key (List.finRange n)
  unfold size
  omega

end Forest

/-! ## The pass

A round either takes a node out of the trees or takes an entry off the line, so that the pass ends.
The recursion is well-founded by the two numbers in this order. -/

/-- A forest under repair, with what has been done to its orphans so far. The counts go into the
statistics of the search, and the nodes into its log. -/
structure Repair (n m : Nat) where
  /-- The forest as it is. -/
  forest : Forest n m
  /-- How many orphans have been adopted. -/
  adopted : Nat
  /-- The nodes expelled, the latest one first. -/
  expelled : List (Fin n)

namespace Repair

variable {n m : Nat}

/-- A repair that has just begun. -/
def begin (f : Forest n m) : Repair n m := ⟨f, 0, []⟩

/-- **Settles one orphan**, by hanging it from its terminal if that still has
capacity for it, from its best parent otherwise, or by expelling it. -/
def settle (T : Topology n m) (S : Support n m) (side : Side) :
    Repair n m → Fin n → Repair n m
  | ⟨f, adopted, expelled⟩, v =>
    if S.terminal v = some side then
      ⟨f.attach v side .terminal f.time 1, adopted + 1, expelled⟩
    else
      match f.bestParent T S side v with
      | (f, some (a, d)) => ⟨f.attach v side (.arc a) f.time (d + 1), adopted + 1, expelled⟩
      | (f, none) => ⟨f.expel T S side v, adopted, v :: expelled⟩

/-- Settling an orphan takes a node out of the trees or leaves the trees and the
orphans as they were. -/
theorem settle_size (T : Topology n m) (S : Support n m) (side : Side)
    (r : Repair n m) (v : Fin n) (hv : r.forest.side? v = some side) :
    (settle T S side r v).forest.size < r.forest.size
      ∨ (settle T S side r v).forest.size = r.forest.size
        ∧ (settle T S side r v).forest.orphans = r.forest.orphans := by
  obtain ⟨f, adopted, expelled⟩ := r
  have hattach (g : Forest n m) (hg : ∀ w, g.side? w = f.side? w) (l : Link m)
      (t d : Nat) : (g.attach v side l t d).size = f.size := by
    refine Forest.size_congr fun w => ?_
    rw [Forest.side?_attach]
    split
    · rename_i h
      rw [h, hv]
    · exact hg w
  obtain ⟨hside, horphans⟩ := f.bestParent_keeps T S side v
  simp only [settle]
  split
  · exact .inr ⟨hattach _ (fun _ => rfl) _ _ _, rfl⟩
  · split
    · rename_i g a d hbest
      rw [hbest] at hside horphans
      exact .inr ⟨hattach g hside _ _ _, horphans⟩
    · rename_i g hbest
      rw [hbest] at hside
      refine .inl (Forest.size_lt_size (v := v) ?_ ?_ fun w hw => ?_)
      · rw [Forest.side?_expel, if_pos rfl]
      · rw [hv]
        exact Option.some_ne_none side
      · rw [Forest.side?_expel, if_neg hw]
        exact hside w

/-- **One round of a pass** takes the first orphan off its line and settles it.
An entry that is no orphan any more is passed over. -/
def round (T : Topology n m) (S : Support n m) : Repair n m → Turn (Repair n m)
  | ⟨f, adopted, expelled⟩ =>
    match f.orphans.popFront? with
    | none => .done ⟨f, adopted, expelled⟩
    | some (v, orphans) =>
      let r : Repair n m := ⟨{ f with orphans }, adopted, expelled⟩
      match (r.forest.label v).place with
      | .tree side .orphan => .more (settle T S side r v)
      | _ => .more r

/-- Each round takes a node out of the trees or an entry off the line. -/
theorem round_decreases {T : Topology n m} {S : Support n m} {r r' : Repair n m}
    (h : round T S r = .more r') :
    r'.forest.size < r.forest.size
      ∨ r'.forest.size = r.forest.size
        ∧ r'.forest.orphans.length < r.forest.orphans.length := by
  obtain ⟨f, adopted, expelled⟩ := r
  simp only [round] at h
  split at h
  · contradiction
  · rename_i v orphans hpop
    have hlen := Deque.length_of_popFront? hpop
    have hsize : ({ f with orphans } : Forest n m).size = f.size := rfl
    split at h
    · rename_i side hplace
      cases h
      have hside : ({ f with orphans } : Forest n m).side? v = some side :=
        congrArg Place.side? hplace
      rcases settle_size T S side ⟨{ f with orphans }, adopted, expelled⟩ v hside with
        hlt | ⟨heq, horphans⟩
      · exact .inl hlt
      · refine .inr ⟨heq, ?_⟩
        rw [horphans]
        show orphans.length < f.orphans.length
        omega
    · cases h
      refine .inr ⟨hsize, ?_⟩
      show orphans.length < f.orphans.length
      omega

/-- **Settles all orphans**, from the front of their line until it is empty. -/
def run (T : Topology n m) (S : Support n m) (r : Repair n m) : Repair n m :=
  match _h : round T S r with
  | .done r => r
  | .more r => r.run T S
termination_by (r.forest.size, r.forest.orphans.length)
decreasing_by
  rw [Prod.lex_def]
  exact round_decreases _h

end Repair

/-- **One adoption pass** over a forest. -/
def Forest.adopt {n m : Nat} (T : Topology n m) (S : Support n m) (f : Forest n m) :
    Repair n m :=
  (Repair.begin f).run T S

end MinCut
