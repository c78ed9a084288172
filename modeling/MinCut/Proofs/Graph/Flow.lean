import MinCut.Proofs.Graph.Optimality
import MinCut.Proofs.Residual.Feasible

/-!
# The flow over a whole search

The flow counter is no more than a number, and the amounts are no more than what is
left. That there is a flow behind them, from terminal to terminal and of just this
value, is what `Graph.search_feasible` says of every state that a search goes
through, for every network that calls can build.
-/

namespace MinCut

variable {n m w : Nat} {T : Topology n m} {total : Int}
variable {r : Residual (Signed w) n m} {s : Search (Signed w) n m}

/-- **What has been sent is a feasible flow** at every state of a search. -/
theorem Search.Visited.feasibleFrom (h : Visited T r s) (hw : 0 < w) (hr : r.Balanced total) :
    s.residual.FeasibleFrom T r :=
  h.residual_induction (motive := fun r' => r'.FeasibleFrom T r) hw hr (hr.feasibleFrom_self T)
    fun hr₁ hp hx hmoved h₁ => h₁.moved hr₁ hmoved hx hp

namespace Graph

/-- **The amounts left encode a feasible flow at every state of a search**, and the
flow counter has grown by its value. -/
theorem search_feasible (hw : 0 < w) (calls : List (Call (Signed w)))
    (hcalls : ∀ c ∈ calls, c.builds = true) :
    Builds calls fun net => net.Throughout fun s =>
      s.residual.FeasibleFrom net.topology net.residual :=
  builds_throughout hw hcalls fun hbalanced _ hs => hs.feasibleFrom hw hbalanced

/-- Three nodes in a row, over which two units are sent. -/
theorem search_feasible_row : (0 < 8 ∧ ∀ c ∈ row, c.builds = true)
    ∧ Builds row fun net => net.Throughout fun s =>
      s.residual.FeasibleFrom net.topology net.residual := by
  have hw : 0 < 8 := by decide
  have hcalls : ∀ c ∈ row, c.builds = true := by decide
  exact ⟨⟨hw, hcalls⟩, search_feasible hw row hcalls⟩

end Graph

end MinCut
