/-!
# Arcs

An edge of a network joins two nodes and has a capacity each way, so the search
sees it as two arcs. An arc is an edge together with the direction it is
followed in; its *sister* is the same edge followed the other way. Taking
sisters twice leads back, and no arc is its own sister, by the shape of the
type.

Arcs are numbered in messages: edge `k` has the arcs `2 * k` and `2 * k + 1`,
the one from its tail to its head first (`Arc.number`). `Arc.all` lists them in
that order.
-/

namespace MinCut

/-- The two ways an edge can be followed. -/
inductive Direction where
  | forward
  | backward
deriving DecidableEq

/-- The other way. -/
def Direction.reverse : Direction → Direction
  | forward => backward
  | backward => forward

/-- Turning round twice leads back. -/
@[simp] theorem Direction.reverse_reverse (d : Direction) : d.reverse.reverse = d := by
  cases d <;> rfl

/-- The other way is another one. -/
theorem Direction.reverse_ne (d : Direction) : d.reverse ≠ d := by
  cases d <;> decide

/-- One of `m` edges, followed in one direction. -/
@[ext] structure Arc (m : Nat) where
  /-- The edge followed. -/
  edge : Fin m
  /-- The way it is followed. -/
  direction : Direction
deriving DecidableEq

namespace Arc

variable {m : Nat}

/-- The same edge, followed the other way. -/
def sister (a : Arc m) : Arc m := { a with direction := a.direction.reverse }

/-- The number of an arc: twice that of its edge, one more against the edge's
own direction. -/
def number (a : Arc m) : Nat :=
  match a.direction with
  | .forward => 2 * a.edge
  | .backward => 2 * a.edge + 1

/-- All arcs, by number. -/
def all (m : Nat) : List (Arc m) :=
  (List.finRange m).flatMap fun e => [⟨e, .forward⟩, ⟨e, .backward⟩]

/-- The sister of the sister is the arc itself. -/
@[simp] theorem sister_sister (a : Arc m) : a.sister.sister = a := by
  simp [sister]

@[simp] theorem edge_sister (a : Arc m) : a.sister.edge = a.edge := rfl

/-- No arc is its own sister. -/
theorem sister_ne (a : Arc m) : a.sister ≠ a := fun h =>
  a.direction.reverse_ne (congrArg direction h)

/-- The edge of an arc is one of those there are. -/
theorem edge_lt (a : Arc m) : a.edge.val < m := a.edge.isLt

/-- Two arcs of one edge are equal or sisters. -/
theorem eq_or_eq_sister {a b : Arc m} (h : a.edge = b.edge) :
    a = b ∨ a = b.sister := by
  obtain ⟨e, d⟩ := a
  obtain ⟨e', d'⟩ := b
  obtain rfl : e = e' := h
  cases d <;> cases d' <;> simp [sister, Direction.reverse]

/-- Every arc is listed. -/
@[simp] theorem mem_all (a : Arc m) : a ∈ all m := by
  obtain ⟨e, d⟩ := a
  simp only [all, List.mem_flatMap, List.mem_finRange, true_and]
  exact ⟨e, by cases d <;> simp⟩

/-- Arc numbers stay below twice the number of edges. -/
theorem number_lt (a : Arc m) : a.number < 2 * m := by
  obtain ⟨e, d⟩ := a
  have := e.isLt
  cases d <;> simp only [number] <;> omega

/-- An arc is known by its number. -/
theorem number_inj {a b : Arc m} : a.number = b.number ↔ a = b := by
  constructor
  · intro h
    obtain ⟨e, d⟩ := a
    obtain ⟨e', d'⟩ := b
    match d, d', h with
    | .forward, .forward, h | .backward, .backward, h =>
      simp only [number] at h
      obtain rfl : e = e' := Fin.ext (by omega)
      rfl
    | .forward, .backward, h | .backward, .forward, h =>
      simp only [number] at h
      omega
  · rintro rfl
    rfl

end Arc

end MinCut
