import MinCut.Network.Topology
import Mathlib.Algebra.BigOperators.Group.Finset.Basic
import Mathlib.Algebra.BigOperators.Ring.Finset
import Mathlib.Data.Fintype.BigOperators
import Mathlib.Tactic.Linarith
import Mathlib.Tactic.Ring

/-!
# Sums over arcs and nodes

The amounts of a network are added up over all arcs and all nodes. An arc is an
edge with a direction, so a sum over arcs is a sum over edges of two terms
(`Arc.sum_eq`). What a path takes from its arcs and gives to their sisters
changes a weighted sum by the differences of the weights along the path
(`Arc.sum_shift`); what it draws on two nodes changes a sum over nodes at these
two only (`sum_eq_of_two`). The arcs out of a node are kept in a list, and a sum
over that list is a sum over all arcs (`Topology.sum_out`).
-/

namespace MinCut

open Finset

variable {n m : Nat}

namespace Arc

instance : Fintype Direction where
  elems := {.forward, .backward}
  complete d := by cases d <;> simp

/-- An arc is an edge with a direction. -/
def equivProd (m : Nat) : Fin m × Direction ≃ Arc m where
  toFun p := ⟨p.1, p.2⟩
  invFun a := (a.edge, a.direction)
  left_inv _ := rfl
  right_inv _ := rfl

instance : Fintype (Arc m) := Fintype.ofEquiv _ (equivProd m)

/-- **A sum over arcs** is a sum over edges, each followed both ways. -/
theorem sum_eq (f : Arc m → Int) :
    ∑ a, f a = ∑ k : Fin m, (f ⟨k, .forward⟩ + f ⟨k, .backward⟩) := by
  rw [← (equivProd m).sum_comp f, Fintype.sum_prod_type]
  refine sum_congr rfl fun k _ => ?_
  show ∑ d ∈ ({Direction.forward, Direction.backward} : Finset Direction), f ⟨k, d⟩ = _
  exact sum_pair (by simp)

/-- A sum over all arcs can be taken over their sisters. -/
theorem sum_sister (f : Arc m → Int) : ∑ a : Arc m, f a.sister = ∑ a, f a :=
  Equiv.sum_comp (Function.Involutive.toPerm sister sister_sister) f

/-- A sum over the arcs of a list without repetitions. -/
theorem sum_ite_mem {arcs : List (Arc m)} (harcs : arcs.Nodup) (f : Arc m → Int) :
    ∑ a, (if a ∈ arcs then f a else 0) = (arcs.map f).sum := by
  rw [← List.sum_toFinset f harcs, ← sum_filter]
  refine sum_congr ?_ fun _ _ => rfl
  ext a
  simp

/-- No arc is listed twice. -/
theorem nodup_all (m : Nat) : (all m).Nodup := by
  refine List.nodup_flatMap.2 ⟨fun k _ => by simp, ?_⟩
  refine (List.nodup_finRange m).imp fun {k l} hkl a hk hl => hkl ?_
  have hedge {j : Fin m} (hj : a ∈ [(⟨j, .forward⟩ : Arc m), ⟨j, .backward⟩]) : a.edge = j := by
    rcases List.mem_pair.1 hj with rfl | rfl <;> rfl
  exact (hedge hk).symm.trans (hedge hl)

/-- **Shifting an amount from the arcs of a list to their sisters** changes a weighted sum by the
amount times the differences of the weights. With weights that are the same for an arc and its
sister nothing changes, and with those of a cut it is counted how often the list crosses it. -/
theorem sum_shift {arcs : List (Arc m)} (harcs : arcs.Nodup) (weight before after : Arc m → Int)
    (x : Int)
    (hafter : ∀ a, after a
      = before a - (if a ∈ arcs then x else 0) + (if a.sister ∈ arcs then x else 0)) :
    ∑ a, weight a * after a
      = ∑ a, weight a * before a
        - x * (arcs.map fun a => weight a - weight a.sister).sum := by
  have hgained : ∑ a : Arc m, (if a.sister ∈ arcs then weight a else 0)
      = ∑ a, (if a ∈ arcs then weight a.sister else 0) := by
    rw [← sum_sister]
    refine sum_congr rfl fun a _ => ?_
    rw [sister_sister]
  have hdiff : (arcs.map fun a => weight a - weight a.sister).sum
      = ∑ a, (if a ∈ arcs then weight a else 0)
        - ∑ a, (if a ∈ arcs then weight a.sister else 0) := by
    rw [← sum_ite_mem harcs, ← sum_sub_distrib]
    refine sum_congr rfl fun a _ => ?_
    split <;> simp
  have hterm (a : Arc m) : weight a * after a
      = weight a * before a - x * (if a ∈ arcs then weight a else 0)
        + x * (if a.sister ∈ arcs then weight a else 0) := by
    rw [hafter]
    split <;> split <;> ring
  rw [sum_congr rfl fun a _ => hterm a, sum_add_distrib, sum_sub_distrib, ← mul_sum, ← mul_sum,
    hgained, hdiff]
  ring

end Arc

/-- A sum over the arcs out of a node. The list of these arcs holds each of them once, so that the
order and the way in which it is kept do not matter. -/
theorem Topology.sum_out (T : Topology n m) (v : Fin n) (f : Arc m → Int) :
    ((T.out v).map f).sum = ∑ a, (if T.tail a = v then f a else 0) := by
  have hnodup : (T.out v).Nodup := by
    rw [T.out_eq]
    exact (Arc.nodup_all m).filter _
  rw [← Arc.sum_ite_mem hnodup]
  simp only [mem_out]

/-- **A sum over nodes of which two have changed.** -/
theorem sum_eq_of_two {f g : Fin n → Int} {u v : Fin n} (huv : u ≠ v)
    (h : ∀ w, w ≠ u → w ≠ v → g w = f w) :
    ∑ w, g w = ∑ w, f w + (g u - f u) + (g v - f v) := by
  have hdiff : ∑ w, (g w - f w) = (g u - f u) + (g v - f v) := by
    rw [← sum_pair (f := fun w => g w - f w) huv]
    refine (sum_subset (subset_univ _) fun w _ hw => ?_).symm
    rw [mem_insert, mem_singleton, not_or] at hw
    rw [h w hw.1 hw.2, sub_self]
  rw [sum_sub_distrib] at hdiff
  linarith

end MinCut
