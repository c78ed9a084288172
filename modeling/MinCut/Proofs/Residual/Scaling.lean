import MinCut.Proofs.Residual.Augmented

/-!
# Sending a multiple

Where each amount of a network is as many times that of another one, the same arcs have
something left and the same terminals, since the factor is positive (`Residual.Scaled.support_eq`).
The bottleneck of a path is as many times the other's, as the least of amounts each of which
is (`Residual.Scaled.toInt_bottleneck`). So what is left after it has been sent is too
(`Residual.Scaled.moved`).

All of this is about the integers that the words stand for, of which sums and differences
can be taken without regard to the range. That nothing is lost to it on either side is known
of balanced amounts already.
-/

namespace MinCut

variable {n m w : Nat} {T : Topology n m} {f : Forest n m} {p : Path n m}

namespace Residual

/-- **Residual capacities each of which is the same multiple** of another one. -/
structure Scaled (c : Int) (r r' : Residual (Signed w) n m) : Prop where
  /-- What is left on each arc is multiplied. -/
  residual (a : Arc m) : (r'.residual a).toInt = c * (r.residual a).toInt
  /-- So is what is left at the terminals of each node. -/
  excess (v : Fin n) : (r'.excess v).toInt = c * (r.excess v).toInt
  /-- So is the flow. -/
  flow : r'.flow.toInt = c * r.flow.toInt

namespace Scaled

variable {c total total' x : Int} {r r' r₁ r₁' : Residual (Signed w) n m}

/-- **The trees do not see the factor.** It is positive, so what is left of an amount is there
before and after the multiplication alike, and on the same side. -/
theorem support_eq (h : r.Scaled c r') (hc : 0 < c) : r'.support = r.support := by
  have hcarries : r'.support.carries = r.support.carries := funext fun a => by
    rw [Bool.eq_iff_iff, carries_support_iff, carries_support_iff, h.residual,
      mul_pos_iff_of_pos_left hc]
  have hterminal : r'.support.terminal = r.support.terminal := funext fun v => by
    have hneg (y : Int) : c * y < 0 ↔ y < 0 := by
      rw [← neg_pos, ← mul_neg, mul_pos_iff_of_pos_left hc, neg_pos]
    unfold support
    simp only [Signed.lt_iff, Signed.toInt_zero, h.excess, mul_pos_iff_of_pos_left hc, hneg]
  exact congrArg₂ Support.mk hcarries hterminal

/-- What is left along a path is multiplied. -/
theorem along_eq (h : r.Scaled c r') (p : Path n m) : r'.along p = (c * ·) '' r.along p := by
  ext y
  constructor
  · rintro (rfl | ⟨a, ha, rfl⟩ | rfl)
    · exact ⟨_, .inl rfl, (h.excess _).symm⟩
    · exact ⟨_, .inr (.inl ⟨a, ha, rfl⟩), (h.residual a).symm⟩
    · exact ⟨_, .inr (.inr rfl), (mul_neg c _).trans (congrArg Neg.neg (h.excess _).symm)⟩
  · rintro ⟨y, rfl | ⟨a, ha, rfl⟩ | rfl, rfl⟩
    · exact .inl (h.excess _).symm
    · exact .inr (.inl ⟨a, ha, (h.residual a).symm⟩)
    · exact .inr (.inr ((mul_neg c _).trans (congrArg Neg.neg (h.excess _).symm)))

/-- **The bottleneck of a path is multiplied**, as the least of the amounts left on it. -/
theorem toInt_bottleneck (h : r.Scaled c r') (hw : 0 < w) (hc : 0 < c) (hr : r.Balanced total)
    (hr' : r'.Balanced total') (hp : f.Augmenting T r.support p) :
    (p.bottleneck r').toInt = c * (p.bottleneck r).toInt := by
  have hp' : f.Augmenting T r'.support p := by rwa [h.support_eq hc]
  have hleast := (monotone_mul_left_of_nonneg hc.le).map_isLeast (hr.isLeast_bottleneck hw hp)
  rw [← h.along_eq] at hleast
  exact (hr'.isLeast_bottleneck hw hp').unique hleast

/-- **What is left after sending a multiple** is a multiple of what is left otherwise. -/
theorem moved (h : r.Scaled c r') (hr : r.Moved p x r₁) (hr' : r'.Moved p (c * x) r₁') :
    r₁.Scaled c r₁' where
  residual a := by
    rw [hr'.residual, hr.residual, h.residual]
    split <;> split <;> ring
  excess v := by
    by_cases hsource : v = p.source.root
    · rw [hsource, hr'.source, hr.source, h.excess, mul_sub]
    · by_cases hsink : v = p.sink.root
      · rw [hsink, hr'.sink, hr.sink, h.excess, mul_add]
      · rw [hr'.excess hsource hsink, hr.excess hsource hsink, h.excess]
  flow := by rw [hr'.flow, hr.flow, h.flow, mul_add]

end Scaled

end Residual

end MinCut
