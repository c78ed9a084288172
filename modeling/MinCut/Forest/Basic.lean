import MinCut.Deque
import MinCut.Network.Support
import MinCut.Network.Topology

/-!
# The search forest

The search keeps two trees, one hanging from each terminal, and every node is
in one of them or free. A node in a tree has a *link* toward the root: directly
to the terminal, over an arc to its parent, or to nowhere when the last
augmentation cut it off and it waits, as an *orphan*, to be adopted.

A node's label also carries a distance to the root with the time at which that
distance was last known to be right, and a flag telling whether the node is
active, that is, waiting to be scanned or being scanned. Beside the labels the
forest has the queue of active nodes, the list of orphans and the time, which
counts scans.

Each operation below changes one label or one waiting line. The lemmas say what
becomes of every label: `label_update` for the general change, and one reading
for each of the others.
-/

namespace MinCut

/-- How a node hangs in its tree. -/
inductive Link (m : Nat) where
  /-- From the terminal itself: the node is a root. -/
  | terminal
  /-- From the node at the other end of an arc that leaves it. -/
  | arc (a : Arc m)
  /-- No longer; the node waits for adoption. -/
  | orphan
deriving DecidableEq

/-- Where a node is. A free node has no link and a node in a tree has exactly one, so that there is
no place with the one and without the other. -/
inductive Place (m : Nat) where
  /-- Outside both trees. -/
  | free
  /-- In the tree of a side. -/
  | tree (side : Side) (link : Link m)
deriving DecidableEq

namespace Place

variable {m : Nat}

/-- The tree a node is in. -/
def side? : Place m → Option Side
  | free => none
  | tree side _ => some side

/-- The link of a node in a tree. -/
def link? : Place m → Option (Link m)
  | free => none
  | tree _ link => some link

/-- Another link in the same tree; a free node stays free. -/
def relink (link : Link m) : Place m → Place m
  | free => free
  | tree side _ => tree side link

@[simp] theorem side?_free : (free : Place m).side? = none := rfl

@[simp] theorem side?_tree (s : Side) (l : Link m) : (tree s l).side? = some s := rfl

@[simp] theorem link?_free : (free : Place m).link? = none := rfl

@[simp] theorem link?_tree (s : Side) (l : Link m) : (tree s l).link? = some l := rfl

@[simp] theorem side?_relink (l : Link m) (p : Place m) :
    (p.relink l).side? = p.side? := by
  cases p <;> rfl

end Place

/-- What the search notes about a node. The stamp and the distance mean something only while the
node is in a tree, and the distance only as far as the stamp can be trusted. -/
@[ext] structure Label (m : Nat) where
  /-- Where the node is. -/
  place : Place m
  /-- When its distance was last known to be right. -/
  stamp : Nat
  /-- How many links lead to the terminal. -/
  distance : Nat
  /-- Whether it waits to be scanned or is being scanned. -/
  active : Bool
deriving DecidableEq

/-- The two trees over `n` nodes and `m` edges, and what waits to be done. -/
@[ext] structure Forest (n m : Nat) where
  /-- The label of each node. -/
  labels : Vector (Label m) n
  /-- The nodes to be scanned. -/
  queue : Deque (Fin n)
  /-- The nodes to be adopted. -/
  orphans : Deque (Fin n)
  /-- How many scans there have been. -/
  time : Nat
deriving DecidableEq

namespace Forest

variable {n m : Nat}

/-- The label of a node. -/
def label (f : Forest n m) (v : Fin n) : Label m := f.labels.get v

/-- The tree a node is in. -/
def side? (f : Forest n m) (v : Fin n) : Option Side := (f.label v).place.side?

/-- The link of a node in a tree. -/
def link? (f : Forest n m) (v : Fin n) : Option (Link m) := (f.label v).place.link?

/-- Changes the label of one node. -/
def update (f : Forest n m) (v : Fin n) (change : Label m → Label m) : Forest n m :=
  { f with labels := f.labels.set v (change (f.labels.get v)) v.isLt }

/-- Hangs a node into a tree, at a distance known to be right at some time. -/
def attach (f : Forest n m) (v : Fin n) (side : Side) (link : Link m)
    (stamp distance : Nat) : Forest n m :=
  f.update v fun l => { l with place := .tree side link, stamp, distance }

/-- Takes a node out of its tree. -/
def release (f : Forest n m) (v : Fin n) : Forest n m :=
  f.update v fun l => { l with place := .free }

/-- Notes the distance of a node as right at the present time. -/
def mark (f : Forest n m) (v : Fin n) (distance : Nat) : Forest n m :=
  f.update v fun l => { l with stamp := f.time, distance }

/-- Sets or clears the flag of a node. -/
def flag (f : Forest n m) (v : Fin n) (active : Bool) : Forest n m :=
  f.update v fun l => { l with active }

/-- Queues a node for scanning, unless it is active already. -/
def activate (f : Forest n m) (v : Fin n) : Forest n m :=
  if (f.label v).active then f
  else
    let queue := f.queue.pushBack v
    { f.flag v true with queue }

/-- Takes the link of a node away, which stays in its tree. It is for the adoption to say whether it
remains there. -/
def sever (f : Forest n m) (v : Fin n) : Forest n m :=
  f.update v fun l => { l with place := l.place.relink .orphan }

/-- Cuts a node off, to be adopted before all other orphans. -/
def orphanFront (f : Forest n m) (v : Fin n) : Forest n m :=
  let orphans := f.orphans.pushFront v
  { f.sever v with orphans }

/-- Cuts a node off, to be adopted after all other orphans. -/
def orphanBack (f : Forest n m) (v : Fin n) : Forest n m :=
  let orphans := f.orphans.pushBack v
  { f.sever v with orphans }

/-- Clears the flag of a node taken off the queue, which leaves the rest of it. The flag is cleared
whether the node is going to be scanned or not. -/
def dequeue (f : Forest n m) (v : Fin n) (queue : Deque (Fin n)) : Forest n m :=
  { f.flag v false with queue }

/-- Lets the time pass by one scan. -/
def tick (f : Forest n m) : Forest n m := { f with time := f.time + 1 }

/-- **The forest before the search**: each node with capacity left at a
terminal is a root, active and at distance one, and all others are free. -/
def initial (S : Support n m) : Forest n m where
  labels := Vector.ofFn fun v =>
    match S.terminal v with
    | some side => ⟨.tree side .terminal, 0, 1, true⟩
    | none => ⟨.free, 0, 0, false⟩
  queue := .ofList ((List.finRange n).filter fun v => (S.terminal v).isSome)
  orphans := .empty
  time := 0

/-! ## Labels after a change

The lemmas give the whole label of every node, so that whatever is read off a label, its place, its
stamp or its flag, needs no lemma of its own for each change. -/

/-- **A change of one label** leaves the others alone. -/
theorem label_update (f : Forest n m) (v w : Fin n) (change : Label m → Label m) :
    (f.update v change).label w
      = if w = v then change (f.label v) else f.label w :=
  get_set f.labels v w _

@[simp] theorem queue_update (f : Forest n m) (v : Fin n) (change : Label m → Label m) :
    (f.update v change).queue = f.queue := rfl

@[simp] theorem orphans_update (f : Forest n m) (v : Fin n)
    (change : Label m → Label m) : (f.update v change).orphans = f.orphans := rfl

@[simp] theorem time_update (f : Forest n m) (v : Fin n) (change : Label m → Label m) :
    (f.update v change).time = f.time := rfl

/-- A node that is attached has a new place and distance, but it is as active as before. -/
theorem label_attach (f : Forest n m) (v w : Fin n) (s : Side) (l : Link m)
    (t d : Nat) :
    (f.attach v s l t d).label w
      = if w = v then ⟨.tree s l, t, d, (f.label v).active⟩ else f.label w :=
  f.label_update v w _

/-- A node that is released is free, and keeps what else is noted about it. -/
theorem label_release (f : Forest n m) (v w : Fin n) :
    (f.release v).label w
      = if w = v then { f.label v with place := .free } else f.label w :=
  f.label_update v w _

/-- A node that is marked stays where it is. -/
theorem label_mark (f : Forest n m) (v w : Fin n) (d : Nat) :
    (f.mark v d).label w
      = if w = v then { f.label v with stamp := f.time, distance := d }
        else f.label w :=
  f.label_update v w _

/-- Setting a flag changes nothing else. -/
theorem label_flag (f : Forest n m) (v w : Fin n) (b : Bool) :
    (f.flag v b).label w
      = if w = v then { f.label v with active := b } else f.label w :=
  f.label_update v w _

@[simp] theorem label_dequeue (f : Forest n m) (v w : Fin n) (q : Deque (Fin n)) :
    (f.dequeue v q).label w = (f.flag v false).label w := rfl

/-- An active node has its flag, whether it had it before or not. Only the queue tells the two cases
apart. -/
theorem label_activate (f : Forest n m) (v w : Fin n) :
    (f.activate v).label w
      = if w = v then { f.label v with active := true } else f.label w := by
  unfold activate
  split
  · rename_i h
    split
    · rename_i hw
      subst hw
      rw [← h]
    · rfl
  · exact f.label_flag v w true

/-- A node that is cut off stays in its tree, as an orphan. -/
theorem label_sever (f : Forest n m) (v w : Fin n) :
    (f.sever v).label w
      = if w = v then { f.label v with place := (f.label v).place.relink .orphan }
        else f.label w :=
  f.label_update v w fun l => { l with place := l.place.relink .orphan }

@[simp] theorem label_orphanFront (f : Forest n m) (v w : Fin n) :
    (f.orphanFront v).label w = (f.sever v).label w := rfl

@[simp] theorem label_orphanBack (f : Forest n m) (v w : Fin n) :
    (f.orphanBack v).label w = (f.sever v).label w := rfl

@[simp] theorem label_tick (f : Forest n m) (v : Fin n) : f.tick.label v = f.label v := rfl

/-- The label of a node before the search. -/
theorem label_initial (S : Support n m) (v : Fin n) :
    (initial S).label v
      = match S.terminal v with
        | some side => ⟨.tree side .terminal, 0, 1, true⟩
        | none => ⟨.free, 0, 0, false⟩ :=
  get_ofFn _ v

/-! ## Sides after a change

Only attaching and releasing move a node in or out of a tree. -/

theorem side?_attach (f : Forest n m) (v w : Fin n) (s : Side) (l : Link m)
    (t d : Nat) :
    (f.attach v s l t d).side? w = if w = v then some s else f.side? w := by
  unfold side?
  rw [label_attach]
  split <;> rfl

theorem side?_release (f : Forest n m) (v w : Fin n) :
    (f.release v).side? w = if w = v then none else f.side? w := by
  unfold side?
  rw [label_release]
  split <;> rfl

@[simp] theorem side?_mark (f : Forest n m) (v w : Fin n) (d : Nat) :
    (f.mark v d).side? w = f.side? w := by
  unfold side?
  rw [label_mark]
  split
  · rename_i h
    rw [h]
  · rfl

@[simp] theorem side?_flag (f : Forest n m) (v w : Fin n) (b : Bool) :
    (f.flag v b).side? w = f.side? w := by
  unfold side?
  rw [label_flag]
  split
  · rename_i h
    rw [h]
  · rfl

@[simp] theorem side?_dequeue (f : Forest n m) (v w : Fin n) (q : Deque (Fin n)) :
    (f.dequeue v q).side? w = f.side? w := f.side?_flag v w false

@[simp] theorem side?_activate (f : Forest n m) (v w : Fin n) :
    (f.activate v).side? w = f.side? w := by
  unfold side?
  rw [label_activate]
  split
  · rename_i h
    rw [h]
  · rfl

@[simp] theorem side?_sever (f : Forest n m) (v w : Fin n) :
    (f.sever v).side? w = f.side? w := by
  unfold side?
  rw [label_sever]
  split
  · rename_i h
    rw [h, Place.side?_relink]
  · rfl

@[simp] theorem side?_orphanFront (f : Forest n m) (v w : Fin n) :
    (f.orphanFront v).side? w = f.side? w := f.side?_sever v w

@[simp] theorem side?_orphanBack (f : Forest n m) (v w : Fin n) :
    (f.orphanBack v).side? w = f.side? w := f.side?_sever v w

end Forest

end MinCut
