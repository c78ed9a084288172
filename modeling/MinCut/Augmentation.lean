import MinCut.Forest.Path
import MinCut.Network.Residual

/-!
# Augmentation

Sending flow along a path. The *bottleneck* is the least amount left anywhere
on it, the two roots' capacity at their terminals included; that much is sent.
Every arc of the path gives it to its sister, both roots draw it from their
terminals, and the flow grows by it.

Both steps are computed on the record, the bottleneck by `Path.measuring` and the transfer by
`Residual.sending`. The order of their operations is that of the program: the bridge first, then the
source leg from the bridge upward, then the sink leg, and the flow last. Where nothing leaves the
range of the type the order is of no consequence to the result (`Residual.residual_send`), but it
decides which sums are formed on the way.
-/

namespace MinCut

variable {α : Type} [Capacity α] {n m : Nat}

/-- What is left on the links of a leg, from the bridge upward, and at its
root's terminal. -/
def Leg.slacks (r : Residual α n m) (side : Side) (leg : Leg n m) : List α :=
  leg.links.map (fun a => r.residual (side.carrier a)) ++ [r.slack side leg.root]

/-- **Finds how much can be sent along a path.** What the sink's root has left is signed toward the
source, so that it is taken with the opposite sign. -/
def Path.measuring (p : Path n m) (r : Residual α n m) : Recorded α α := do
  let left ← .run (.neg (r.excess p.sink.root))
  return Capacity.smallest (r.residual p.bridge)
    (p.source.slacks r .source
      ++ (p.sink.links.map (fun a => r.residual (Side.sink.carrier a)) ++ [left]))

@[inherit_doc Path.measuring]
def Path.bottleneck (r : Residual α n m) (p : Path n m) : α := (p.measuring r).value

/-- What is measured on a path is its bottleneck. -/
@[simp] theorem Path.value_measuring (r : Residual α n m) (p : Path n m) :
    (p.measuring r).value = p.bottleneck r := rfl

/-- The bottleneck is taken from all that is left on the path. -/
theorem Path.bottleneck_eq_smallest (r : Residual α n m) (p : Path n m) :
    p.bottleneck r = Capacity.smallest (r.residual p.bridge)
      (p.source.slacks r .source ++ p.sink.slacks r .sink) := rfl

namespace Residual

/-- Sends an amount along a leg, between its terminal and the bridge. -/
def sendingLeg (r : Residual α n m) (side : Side) (leg : Leg n m) (x : α) :
    Recorded α (Residual α n m) := do
  let r ← leg.links.foldlM (fun r a => r.pushing (side.carrier a) x) r
  r.drawing side leg.root x

@[inherit_doc sendingLeg]
def sendLeg (r : Residual α n m) (side : Side) (leg : Leg n m) (x : α) :
    Residual α n m := (r.sendingLeg side leg x).value

/-- What sending along a leg comes to. -/
@[simp] theorem value_sendingLeg (r : Residual α n m) (side : Side) (leg : Leg n m) (x : α) :
    (r.sendingLeg side leg x).value = r.sendLeg side leg x := rfl

/-- Along a leg, one link is pushed over after the other, and then the root draws. -/
theorem sendLeg_eq_foldl (r : Residual α n m) (side : Side) (leg : Leg n m) (x : α) :
    r.sendLeg side leg x
      = (leg.links.foldl (fun r a => r.push (side.carrier a) x) r).draw side leg.root x :=
  congrArg (fun r => draw r side leg.root x) (Recorded.value_foldlM _ leg.links r)

/-- **Sends an amount along a path**, from terminal to terminal. -/
def sending (r : Residual α n m) (p : Path n m) (x : α) : Recorded α (Residual α n m) := do
  let r ← r.pushing p.bridge x
  let r ← r.sendingLeg .source p.source x
  let r ← r.sendingLeg .sink p.sink x
  r.crediting x

@[inherit_doc sending]
def send (r : Residual α n m) (p : Path n m) (x : α) : Residual α n m := (r.sending p x).value

/-- A path is sent along bridge first, then leg by leg. -/
theorem send_eq (r : Residual α n m) (p : Path n m) (x : α) : r.send p x
    = (((r.push p.bridge x).sendLeg .source p.source x).sendLeg .sink p.sink x).credit x := rfl

/-- **Augments a path**: finds its bottleneck and sends that much along it. -/
def augmenting (r : Residual α n m) (p : Path n m) : Recorded α (α × Residual α n m) := do
  let amount ← p.measuring r
  let r ← r.sending p amount
  return (amount, r)

end Residual

end MinCut
