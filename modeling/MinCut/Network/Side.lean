import MinCut.Network.Arc

/-!
# The two sides

One tree of the search grows from the source, the other from the sink, and much
is said of both at once. A link of either tree is an arc from a child to its
parent; flow runs over it toward the child in the source tree and toward the
parent in the sink tree. `Side.carrier` is the arc that flow runs along, so that
a rule stated with it holds on both sides.
-/

namespace MinCut

/-- The side of a terminal. Whatever is on neither side is described by an optional side. -/
inductive Side where
  | source
  | sink
deriving DecidableEq

namespace Side

variable {m : Nat}

/-- The other side. -/
def opposite : Side → Side
  | source => sink
  | sink => source

/-- There are two sides, so the opposite of the opposite is the first one. -/
@[simp] theorem opposite_opposite (s : Side) : s.opposite.opposite = s := by
  cases s <;> rfl

/-- What is not on one side is on the other. -/
theorem eq_opposite_of_ne {s t : Side} (h : s ≠ t) : s = t.opposite := by
  cases s <;> cases t <;> simp_all [opposite]

/-- The arc along which flow runs over a link from child to parent. -/
def carrier (s : Side) (link : Arc m) : Arc m :=
  match s with
  | source => link.sister
  | sink => link

/-- In the source tree, flow runs from parent to child. -/
@[simp] theorem carrier_source (a : Arc m) : source.carrier a = a.sister := rfl

/-- In the sink tree, it runs from child to parent. -/
@[simp] theorem carrier_sink (a : Arc m) : sink.carrier a = a := rfl

/-- The link can be told from the arc along which flow runs in the same way. -/
@[simp] theorem carrier_carrier (s : Side) (a : Arc m) : s.carrier (s.carrier a) = a := by
  cases s <;> simp

/-- For the sister of a link, flow runs along the sister of the arc. -/
theorem carrier_sister (s : Side) (a : Arc m) :
    s.carrier a.sister = (s.carrier a).sister := by
  cases s <;> simp

@[simp] theorem edge_carrier (s : Side) (a : Arc m) : (s.carrier a).edge = a.edge := by
  cases s <;> simp

end Side

end MinCut
