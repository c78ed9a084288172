import MinCut.Capacity.Recorded
import MinCut.Network.Support
import MinCut.Vector

/-!
# Residual capacities

The amounts the search works on: what is left on each arc, what is left at the
terminals of each node, and the flow sent so far. A node keeps one signed
amount for both terminals, positive toward the source and negative toward the
sink; what both terminals of a node share has already been sent through it.

Pushing along an arc takes from the arc and gives to its sister, so that the
two together keep their sum wherever the arithmetic is exact. Drawing on a
terminal moves the signed amount of a node toward zero. The lemmas say for each
change what it does to every arc and every node.
-/

namespace MinCut

/-- The residual capacities of a network with `n` nodes and `m` edges. -/
@[ext] structure Residual (α : Type) (n m : Nat) where
  /-- What is left on each edge, forward and backward. -/
  pairs : Vector (α × α) m
  /-- What is left at the terminals of each node, signed toward the source. -/
  excesses : Vector α n
  /-- The flow sent from terminal to terminal. -/
  flow : α

namespace Residual

variable {α : Type} {n m : Nat}

/-- What is left on an arc. -/
def residual (r : Residual α n m) (a : Arc m) : α :=
  match a.direction with
  | .forward => (r.pairs.get a.edge).1
  | .backward => (r.pairs.get a.edge).2

/-- What is left at the terminals of a node. -/
def excess (r : Residual α n m) (v : Fin n) : α := r.excesses.get v

variable [Capacity α]

/-- Which arcs and terminals have capacity left. -/
def support (r : Residual α n m) : Support n m where
  carries a := decide (0 < r.residual a)
  terminal v :=
    if 0 < r.excess v then some .source
    else if r.excess v < 0 then some .sink
    else none

/-- What is left of a node's capacity at the terminal of one side. It is negative if the node has
something left at the other terminal. -/
def slack (r : Residual α n m) (s : Side) (v : Fin n) : α :=
  match s with
  | .source => r.excess v
  | .sink => -r.excess v

/-! ## Changes -/

/-- Moves an amount from an arc to its sister. -/
def pushing (r : Residual α n m) (a : Arc m) (x : α) : Recorded α (Residual α n m) := do
  let left ← .run (.sub (r.residual a) x)
  let given ← .run (.add (r.residual a.sister) x)
  let pair := match a.direction with
    | .forward => (left, given)
    | .backward => (given, left)
  return { r with pairs := r.pairs.set a.edge pair a.edge_lt }

@[inherit_doc pushing]
def push (r : Residual α n m) (a : Arc m) (x : α) : Residual α n m := (r.pushing a x).value

/-- What pushing comes to. -/
@[simp] theorem value_pushing (r : Residual α n m) (a : Arc m) (x : α) :
    (r.pushing a x).value = r.push a x := rfl

/-- Uses an amount of a node's capacity at the terminal of one side. -/
def drawing (r : Residual α n m) (s : Side) (v : Fin n) (x : α) :
    Recorded α (Residual α n m) := do
  let left ← .run (match s with
    | .source => .sub (r.excess v) x
    | .sink => .add (r.excess v) x)
  return { r with excesses := r.excesses.set v left v.isLt }

@[inherit_doc drawing]
def draw (r : Residual α n m) (s : Side) (v : Fin n) (x : α) : Residual α n m :=
  (r.drawing s v x).value

/-- Counts an amount as sent. -/
def crediting (r : Residual α n m) (x : α) : Recorded α (Residual α n m) := do
  let flow ← .run (.add r.flow x)
  return { r with flow }

@[inherit_doc crediting]
def credit (r : Residual α n m) (x : α) : Residual α n m := (r.crediting x).value

/-! ## What each change does

These hold for every capacity type, since they only say where a result is written and not what it
is worth. -/

@[simp] theorem carries_support (r : Residual α n m) (a : Arc m) :
    r.support.carries a = decide (0 < r.residual a) := rfl

/-- Pushing writes what is left on an edge, in its own order. -/
theorem pairs_push (r : Residual α n m) (a : Arc m) (x : α) :
    (r.push a x).pairs = r.pairs.set a.edge (match a.direction with
      | .forward => (r.residual a - x, r.residual a.sister + x)
      | .backward => (r.residual a.sister + x, r.residual a - x)) a.edge_lt := rfl

/-- **Pushing takes from the arc**, gives to its sister and leaves all other
arcs alone. -/
theorem residual_push (r : Residual α n m) (a b : Arc m) (x : α) :
    (r.push a x).residual b
      = if b = a then r.residual a - x
        else if b = a.sister then r.residual a.sister + x
        else r.residual b := by
  obtain ⟨e, d⟩ := a
  obtain ⟨e', d'⟩ := b
  by_cases he : e' = e
  · subst he
    cases d <;> cases d' <;>
      simp [residual, pairs_push, Arc.sister, Direction.reverse, get_set]
  · have hpair : (r.push ⟨e, d⟩ x).pairs.get e' = r.pairs.get e' := by
      rw [pairs_push, get_set, if_neg he]
    simp only [residual, hpair, Arc.sister, Arc.mk.injEq, he, false_and, if_false]

@[simp] theorem residual_push_self (r : Residual α n m) (a : Arc m) (x : α) :
    (r.push a x).residual a = r.residual a - x := by
  rw [residual_push, if_pos rfl]

@[simp] theorem residual_push_sister (r : Residual α n m) (a : Arc m) (x : α) :
    (r.push a x).residual a.sister = r.residual a.sister + x := by
  rw [residual_push, if_neg a.sister_ne, if_pos rfl]

/-- Arcs of other edges keep what they have. -/
theorem residual_push_of_edge_ne {r : Residual α n m} {a b : Arc m} {x : α}
    (h : b.edge ≠ a.edge) : (r.push a x).residual b = r.residual b := by
  have ha : ¬b = a := fun hb => h (congrArg Arc.edge hb)
  have hs : ¬b = a.sister := fun hb => h (hb ▸ a.edge_sister)
  rw [residual_push, if_neg ha, if_neg hs]

@[simp] theorem excess_push (r : Residual α n m) (a : Arc m) (x : α) (v : Fin n) :
    (r.push a x).excess v = r.excess v := rfl

@[simp] theorem flow_push (r : Residual α n m) (a : Arc m) (x : α) :
    (r.push a x).flow = r.flow := rfl

@[simp] theorem residual_draw (r : Residual α n m) (s : Side) (v : Fin n) (x : α)
    (a : Arc m) : (r.draw s v x).residual a = r.residual a := rfl

/-- **Drawing on a terminal** changes what is left at that node only. -/
theorem excess_draw (r : Residual α n m) (s : Side) (v w : Fin n) (x : α) :
    (r.draw s v x).excess w
      = if w = v then
          match s with
          | .source => r.excess v - x
          | .sink => r.excess v + x
        else r.excess w := by
  show (r.excesses.set v _ v.isLt).get w = _
  rw [get_set]
  cases s <;> rfl

@[simp] theorem flow_draw (r : Residual α n m) (s : Side) (v : Fin n) (x : α) :
    (r.draw s v x).flow = r.flow := rfl

@[simp] theorem residual_credit (r : Residual α n m) (x : α) (a : Arc m) :
    (r.credit x).residual a = r.residual a := rfl

@[simp] theorem excess_credit (r : Residual α n m) (x : α) (v : Fin n) :
    (r.credit x).excess v = r.excess v := rfl

@[simp] theorem flow_credit (r : Residual α n m) (x : α) :
    (r.credit x).flow = r.flow + x := rfl

end Residual

end MinCut
