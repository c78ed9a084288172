import MinCut.Network.Arc
import MinCut.Vector

/-!
# Topology

What the search needs to know of a network's shape: where each arc starts and
ends, and which arcs leave each node. The lists of leaving arcs are kept ready,
since the search reads them all the time; the type holds the proof that they
are what they should be, the arcs in order of number that start at the node
(`Topology.out_eq`).

`Topology.ofEnds` builds all lists in one pass over the arcs.
-/

namespace MinCut

/-- The node at which an arc starts, given the two ends of every edge. -/
def Arc.start {n m : Nat} (ends : Vector (Fin n × Fin n) m) (a : Arc m) : Fin n :=
  match a.direction with
  | .forward => (ends.get a.edge).1
  | .backward => (ends.get a.edge).2

/-- The shape of a network with `n` nodes and `m` edges. -/
structure Topology (n m : Nat) where
  /-- The tail and the head of each edge. -/
  ends : Vector (Fin n × Fin n) m
  /-- The arcs that start at each node. -/
  leaving : Vector (List (Arc m)) n
  /-- The lists hold the right arcs, by number. -/
  leaving_eq : ∀ v : Fin n,
    leaving.get v = (Arc.all m).filter fun a => decide (a.start ends = v)

namespace Topology

variable {n m : Nat}

/-- The node an arc starts at. -/
def tail (T : Topology n m) (a : Arc m) : Fin n := a.start T.ends

/-- The node an arc leads to. -/
def head (T : Topology n m) (a : Arc m) : Fin n := T.tail a.sister

/-- A sister starts where the arc ends. -/
@[simp] theorem tail_sister (T : Topology n m) (a : Arc m) :
    T.tail a.sister = T.head a := rfl

/-- It ends where the arc starts. -/
@[simp] theorem head_sister (T : Topology n m) (a : Arc m) :
    T.head a.sister = T.tail a := by
  rw [head, Arc.sister_sister]

/-- The arcs that leave a node, by number. -/
def out (T : Topology n m) (v : Fin n) : List (Arc m) := T.leaving.get v

/-- **The arcs out of a node are those that start there**, in order of number. -/
theorem out_eq (T : Topology n m) (v : Fin n) :
    T.out v = (Arc.all m).filter fun a => decide (T.tail a = v) :=
  T.leaving_eq v

@[simp] theorem mem_out {T : Topology n m} {v : Fin n} {a : Arc m} :
    a ∈ T.out v ↔ T.tail a = v := by
  simp [out_eq]

/-- Puts each arc of a list in front of the list of the node it starts at, the
last arc first. -/
def distribute (start : Arc m → Fin n) (arcs : List (Arc m)) : Vector (List (Arc m)) n :=
  arcs.foldr (fun a lists =>
      lists.set (start a) (a :: lists.get (start a)) (start a).isLt)
    (Vector.replicate n [])

/-- Each list holds the arcs of its node, in the order in which they were given. -/
theorem get_distribute (start : Arc m → Fin n) (arcs : List (Arc m)) (v : Fin n) :
    (distribute start arcs).get v = arcs.filter fun a => decide (start a = v) := by
  induction arcs with
  | nil => exact Vector.getElem_replicate v.isLt
  | cons a arcs ih =>
    have hset : (distribute start (a :: arcs)).get v
        = if v = start a then a :: (distribute start arcs).get (start a)
          else (distribute start arcs).get v := get_set _ _ _ _
    rw [hset, List.filter_cons]
    by_cases h : v = start a
    · subst h
      simp [ih]
    · have hs : ¬start a = v := fun hv => h hv.symm
      simp [h, hs, ih]

/-- The topology of a list of edges, each given by its tail and its head. -/
def ofEnds (ends : Vector (Fin n × Fin n) m) : Topology n m where
  ends := ends
  leaving := distribute (Arc.start ends) (Arc.all m)
  leaving_eq := get_distribute _ _

@[simp] theorem ends_ofEnds (ends : Vector (Fin n × Fin n) m) :
    (ofEnds ends).ends = ends := rfl

end Topology

end MinCut
