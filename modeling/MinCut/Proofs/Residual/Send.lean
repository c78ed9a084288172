import MinCut.Augmentation
import MinCut.Proofs.Forest.Path

/-!
# What sending does to every arc and node

Sending an amount along a path goes through its arcs one by one. Where no edge
occurs twice, the amount pushed over one arc is not seen when another one's turn
comes, so every arc of the path has lost the amount in the end, every sister has
gained it, and all other arcs have what they had (`Residual.residual_send`).
Nothing is assumed of the arithmetic here.
-/

namespace MinCut

namespace Residual

variable {α : Type} [Capacity α] {n m : Nat}

/-- Pushing over arcs of different edges, one after the other. -/
theorem residual_foldl_push {arcs : List (Arc m)} (harcs : (arcs.map Arc.edge).Nodup)
    (r : Residual α n m) (x : α) (a : Arc m) :
    (arcs.foldl (fun r b => r.push b x) r).residual a
      = if a ∈ arcs then r.residual a - x
        else if a.sister ∈ arcs then r.residual a + x
        else r.residual a := by
  -- over the arcs; the first one has been pushed over when the others have their turns
  induction arcs generalizing r with
  | nil => simp
  | cons b arcs ih =>
    rw [List.map_cons, List.nodup_cons] at harcs
    obtain ⟨hb, harcs⟩ := harcs
    rw [List.foldl_cons, ih harcs]
    by_cases hedge : a.edge = b.edge
    · -- the edge is used now and never again
      have hnot {c : Arc m} (hc : c.edge = b.edge) : c ∉ arcs := fun hmem =>
        hb (hc ▸ List.mem_map_of_mem hmem)
      rw [if_neg (hnot hedge), if_neg (hnot (a.edge_sister.trans hedge))]
      rcases Arc.eq_or_eq_sister hedge with rfl | rfl
      · rw [if_pos List.mem_cons_self, residual_push_self]
      · have hmem : b.sister ∉ b :: arcs := by
          rw [List.mem_cons, not_or]
          exact ⟨b.sister_ne, hnot rfl⟩
        rw [if_neg hmem, b.sister_sister, if_pos List.mem_cons_self, residual_push_sister]
    · have hcons {c : Arc m} (hc : c.edge ≠ b.edge) : c ∈ b :: arcs ↔ c ∈ arcs := by
        rw [List.mem_cons]
        exact or_iff_right fun h => hc (congrArg Arc.edge h)
      rw [residual_push_of_edge_ne hedge]
      simp only [hcons hedge, hcons (c := a.sister) hedge]

/-- What is pushed depends on what is left on the arcs only. -/
theorem residual_foldl_congr {r r' : Residual α n m} (h : ∀ a, r.residual a = r'.residual a)
    (arcs : List (Arc m)) (x : α) (a : Arc m) :
    (arcs.foldl (fun r b => r.push b x) r).residual a
      = (arcs.foldl (fun r b => r.push b x) r').residual a := by
  induction arcs generalizing r r' with
  | nil => exact h a
  | cons b arcs ih =>
    refine ih fun c => ?_
    rw [residual_push, residual_push, h b, h b.sister, h c]

/-- Pushing draws on no terminal. -/
theorem excess_foldl_push (arcs : List (Arc m)) (r : Residual α n m) (x : α) (v : Fin n) :
    (arcs.foldl (fun r b => r.push b x) r).excess v = r.excess v := by
  induction arcs generalizing r with
  | nil => rfl
  | cons b arcs ih => rw [List.foldl_cons, ih, excess_push]

/-- It counts nothing as sent. -/
theorem flow_foldl_push (arcs : List (Arc m)) (r : Residual α n m) (x : α) :
    (arcs.foldl (fun r b => r.push b x) r).flow = r.flow := by
  induction arcs generalizing r with
  | nil => rfl
  | cons b arcs ih => rw [List.foldl_cons, ih, flow_push]

/-- The links of a leg are followed for the arcs along which flow runs. -/
theorem sendLeg_eq (r : Residual α n m) (s : Side) (leg : Leg n m) (x : α) :
    r.sendLeg s leg x
      = ((leg.links.map s.carrier).foldl (fun r b => r.push b x) r).draw s leg.root x := by
  rw [sendLeg_eq_foldl, List.foldl_map]

/-- Sending along a leg draws on the terminal of its root. -/
theorem excess_sendLeg (r : Residual α n m) (s : Side) (leg : Leg n m) (x : α) (v : Fin n) :
    (r.sendLeg s leg x).excess v
      = if v = leg.root then
          match s with
          | .source => r.excess v - x
          | .sink => r.excess v + x
        else r.excess v := by
  rw [sendLeg_eq, excess_draw, excess_foldl_push, excess_foldl_push]
  split
  · rename_i h
    subst h
    cases s <;> rfl
  · rfl

/-- What is sent along a leg is not counted before both have been walked. -/
@[simp] theorem flow_sendLeg (r : Residual α n m) (s : Side) (leg : Leg n m) (x : α) :
    (r.sendLeg s leg x).flow = r.flow := by
  rw [sendLeg_eq, flow_draw, flow_foldl_push]

/-- For the arcs, the whole path is a list of arcs that are pushed over. -/
theorem residual_send_eq_foldl (r : Residual α n m) (p : Path n m) (x : α) (a : Arc m) :
    (r.send p x).residual a
      = (p.arcs.foldl (fun r b => r.push b x) r).residual a := by
  rw [send_eq, residual_credit, sendLeg_eq, residual_draw, sendLeg_eq, Path.arcs, List.foldl_cons,
    List.foldl_append]
  exact residual_foldl_congr (fun b => residual_draw _ _ _ _ b) _ x a

/-- **Sending along a path without double edges** takes the amount from each of
its arcs and gives it to their sisters. -/
theorem residual_send {p : Path n m} (hp : (p.arcs.map Arc.edge).Nodup)
    (r : Residual α n m) (x : α) (a : Arc m) :
    (r.send p x).residual a
      = if a ∈ p.arcs then r.residual a - x
        else if a.sister ∈ p.arcs then r.residual a + x
        else r.residual a := by
  rw [residual_send_eq_foldl, residual_foldl_push hp]

/-- **Sending along a path draws** on the terminals of its two roots. -/
theorem excess_send {p : Path n m} (hp : p.source.root ≠ p.sink.root)
    (r : Residual α n m) (x : α) (v : Fin n) :
    (r.send p x).excess v
      = if v = p.source.root then r.excess v - x
        else if v = p.sink.root then r.excess v + x
        else r.excess v := by
  rw [send_eq, excess_credit, excess_sendLeg, excess_sendLeg, excess_push]
  by_cases hsink : v = p.sink.root
  · subst hsink
    rw [if_pos rfl, if_neg (Ne.symm hp), if_neg (Ne.symm hp), if_pos rfl]
  · rw [if_neg hsink, if_neg hsink]

/-- What is sent is counted once. -/
theorem flow_send (r : Residual α n m) (p : Path n m) (x : α) :
    (r.send p x).flow = r.flow + x := by
  rw [send_eq, flow_credit, flow_sendLeg, flow_sendLeg, flow_push]

end Residual

end MinCut
