import MinCut.Forest.Basic

/-!
# Paths through the forest

A bridge from the source tree to the sink tree closes a path from terminal to
terminal: from the source to its root, down the links to the bridge, across it,
and up the links of the sink tree to the other root. A path is the bridge with
its two *legs*, each the links from one end of the bridge up to a root.

Once flow has been sent along the path, some links of its legs hold no longer.
`Path.loose` lists the nodes that hang from them, in the order in which the
path is walked: each leg from the bridge upward, the source side first.
-/

namespace MinCut

variable {n m : Nat}

/-- The way up from a node to the root of its tree. -/
structure Leg (n m : Nat) where
  /-- The links, from the node upward. -/
  links : List (Arc m)
  /-- The root. -/
  root : Fin n

/-- A path from the source to the sink. -/
structure Path (n m : Nat) where
  /-- The arc from the source tree to the sink tree. -/
  bridge : Arc m
  /-- The way from the tail of the bridge to its root. -/
  source : Leg n m
  /-- The way from the head of the bridge to its root. -/
  sink : Leg n m

namespace Forest

/-- Follows links upward, at most a given number of them. In a forest where every chain ends, a
bound as large as the number of nodes is never reached. -/
def climb (T : Topology n m) (f : Forest n m) : Nat → Fin n → Leg n m
  | 0, v => ⟨[], v⟩
  | bound + 1, v =>
    match f.link? v with
    | some (.arc a) =>
      let leg := climb T f bound (T.head a)
      { leg with links := a :: leg.links }
    | _ => ⟨[], v⟩

/-- The way up from a node. -/
def leg (T : Topology n m) (f : Forest n m) (v : Fin n) : Leg n m := climb T f n v

/-- The path that a bridge closes. -/
def path (T : Topology n m) (f : Forest n m) (bridge : Arc m) : Path n m where
  bridge := bridge
  source := f.leg T (T.tail bridge)
  sink := f.leg T (T.head bridge)

end Forest

/-- The nodes of a leg in the tree of a side whose link does not hold, from the
bridge upward; that of the root is its capacity at the terminal. -/
def Leg.loose (T : Topology n m) (S : Support n m) (side : Side) (leg : Leg n m) :
    List (Fin n) :=
  (leg.links.filter fun a => !S.live side a).map T.tail
    ++ (if S.terminal leg.root = some side then [] else [leg.root])

/-- The nodes of a path whose links do not hold. -/
def Path.loose (T : Topology n m) (S : Support n m) (p : Path n m) : List (Fin n) :=
  p.source.loose T S .source ++ p.sink.loose T S .sink

/-- Cuts off the nodes of a path whose links do not hold. The last one found is
the first to be adopted. -/
def Forest.cut (T : Topology n m) (S : Support n m) (f : Forest n m) (p : Path n m) :
    Forest n m :=
  (p.loose T S).foldl orphanFront f

end MinCut
