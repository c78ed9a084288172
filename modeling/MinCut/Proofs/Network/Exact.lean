import MinCut.Proofs.Capacity.Recorded
import MinCut.Proofs.Network.Building

/-!
# Building without overflow

Of the calls that build a network, one computes with amounts. What is added at a
node's terminals is first added to what is left there, then one side is subtracted
from the other, and what both share is added to the flow. These three operations are on
the record of the call (`Network.addingTerminal`).

The check on the total comes before all this, and the total counts what the node
had and what it is given, so that no sum or difference of the two can leave the range
(`Network.Balanced.exact_addingTerminal`).
-/

namespace MinCut

variable {w : Nat}

variable {net : Network (Signed w)} {node : Nat} {sink source excess : Signed w}

/-- Absorbing takes one sum and one difference, or two differences. -/
theorem length_operations_absorbing (excess sink source : Signed w) :
    (absorbing excess sink source).operations.length = 2 := by
  unfold absorbing
  split <;> rfl

/-- An accepted capacity takes three operations. -/
theorem Network.length_operations_addingTerminal
    {c : Recorded (Signed w) (Network (Signed w))}
    (hc : net.addingTerminal node sink source = .ok c) : c.operations.length = 3 := by
  unfold addingTerminal at hc
  split at hc
  · cases htotal : net.totalWith sink source with
    | error fault =>
      rw [htotal] at hc
      cases hc
    | ok total =>
      rw [htotal] at hc
      cases hc
      rw [Recorded.length_operations_bind, length_operations_absorbing]
      rfl
  · cases hc

/-- **Absorbing does not overflow**, where all that the node has then fits. On one side the new
amount is added to what is left, which only makes it larger, and the difference of the two sides is
no larger than either of them. -/
theorem exact_absorbing (hw : 0 < w) (hsink : 0 ≤ sink.toInt) (hsource : 0 ≤ source.toInt)
    (hfit : |excess.toInt| + sink.toInt + source.toInt ≤ Signed.maxValue w) :
    (absorbing excess sink source).Exact := by
  have hle := le_abs_self excess.toInt
  have hneg := neg_le_abs excess.toInt
  -- the same two cases as for what absorbing comes to
  unfold absorbing
  split
  · rename_i hpos
    rw [Signed.lt_iff, Signed.toInt_zero] at hpos
    have hadd : (Operation.add source excess).Fits := by
      simp only [Operation.Fits, Operation.exact]
      omega
    have hsub : (Operation.sub (source + excess) sink).Fits := by
      have hsum : (source + excess).toInt = source.toInt + excess.toInt := hadd.toInt_result hw
      simp only [Operation.Fits, Operation.exact]
      omega
    exact Recorded.exact_bind (Recorded.exact_run hadd) (Recorded.exact_bind
      (Recorded.exact_pure _) (Recorded.exact_bind (Recorded.exact_run hsub)
        (Recorded.exact_pure _)))
  · rename_i hpos
    rw [Signed.lt_iff, Signed.toInt_zero] at hpos
    have hsub : (Operation.sub sink excess).Fits := by
      simp only [Operation.Fits, Operation.exact]
      omega
    have hleft : (Operation.sub source (sink - excess)).Fits := by
      have hdiff : (sink - excess).toInt = sink.toInt - excess.toInt := hsub.toInt_result hw
      simp only [Operation.Fits, Operation.exact]
      omega
    exact Recorded.exact_bind (Recorded.exact_run hsub) (Recorded.exact_bind
      (Recorded.exact_pure _) (Recorded.exact_bind (Recorded.exact_run hleft)
        (Recorded.exact_pure _)))

/-- **Adding capacity at a node** of a balanced network does not overflow. -/
theorem Network.Balanced.exact_addingTerminal (h : net.Balanced) (hw : 0 < w)
    {c : Recorded (Signed w) (Network (Signed w))}
    (hc : net.addingTerminal node sink source = .ok c) : c.Exact := by
  -- the call is accepted, so what is known of accepted calls can be used
  have hok : net.addTerminal node sink source = .ok c.value := by
    rw [Network.addTerminal, hc]
    rfl
  obtain ⟨hn, htotal, _, _, _⟩ := addTerminal_eq_ok hok
  obtain ⟨hsink, hsource, hsum⟩ := totalWith_spec hw htotal
  have hbound := h.flow_add_excess_le hn
  have hat := (net.excessAt_eq hn).symm
  have hfits := c.value.total.toInt_le_maxValue
  have hnonneg := h.flow_nonneg
  have hfit := h.absorb_fits hw hok hn
  -- what is shared is at most half of what the node has on both sides
  have hadd : (Operation.add net.flow (absorbing net.excesses[node] sink source).value.2).Fits := by
    have hshared := (absorb_spec hw net.excesses[node] hsink hsource hfit).2
    have hle := le_abs_self (net.excessAt node)
    have hneg := neg_le_abs (net.excessAt node)
    simp only [value_absorbing, Operation.Fits, Operation.exact, hshared, hat]
    omega
  unfold addingTerminal at hc
  rw [dif_pos hn, htotal] at hc
  rw [← Except.ok.inj hc]
  exact Recorded.exact_bind (exact_absorbing hw hsink hsource hfit)
    (Recorded.exact_bind (Recorded.exact_run hadd) (Recorded.exact_pure _))

end MinCut
