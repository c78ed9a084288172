import MinCut.Proofs.Graph.Optimality
import MinCut.Proofs.Network.Exact
import MinCut.Proofs.Residual.Exact

/-!
# The total as a ledger

The total of a graph is the only amount whose range is ever checked, and only when
capacity is accepted. All else is computed without a check, by the calls that build
a network (`Network.Accounted`) and by the search (`Search.Accounted`).

That this is enough is because the total accounts for every amount there is: the flow,
counted twice, what is left at the terminals and what is left on the arcs add up to it
in integers, after every call and between any two turns. So no operation overflows,
and neither would the opposite of its result, even when the total is the greatest
word of all.
-/

namespace MinCut

open Finset

variable {n m w : Nat} {T : Topology n m} {total : Int} {value : Finset Nat → Int}
variable {s : Search (Signed w) n m}

/-- **A network whose total accounts for all its amounts**, so that it takes new ones
without overflow. -/
structure Network.Accounted (net : Network (Signed w)) : Prop where
  /-- The total is made up of the flow, counted twice, and what is left. -/
  total_eq : net.total.toInt = 2 * net.residual.flow.toInt
    + ∑ v, |(net.residual.excess v).toInt| + ∑ a, (net.residual.residual a).toInt
  /-- The call on the record is the call. -/
  value_addingTerminal (node : Nat) (sink source : Signed w) :
    Recorded.value <$> net.addingTerminal node sink source = net.addTerminal node sink source
  /-- If it is accepted, none of its operations overflows. -/
  exact_addingTerminal {node : Nat} {sink source : Signed w}
    {c : Recorded (Signed w) (Network (Signed w))} :
    net.addingTerminal node sink source = .ok c → c.Exact
  /-- There are three of them: two to absorb the capacities and one to count what they share. -/
  length_operations {node : Nat} {sink source : Signed w}
    {c : Recorded (Signed w) (Network (Signed w))} :
    net.addingTerminal node sink source = .ok c → c.operations.length = 3

/-- The total of a balanced network accounts for its amounts. -/
theorem Network.Balanced.accounted {net : Network (Signed w)} (h : net.Balanced) (hw : 0 < w) :
    net.Accounted where
  total_eq := h.residual.ledger.symm
  value_addingTerminal _ _ _ := rfl
  exact_addingTerminal := h.exact_addingTerminal hw
  length_operations := length_operations_addingTerminal

namespace Search

/-- **A turn does not overflow.** -/
theorem Sound.exact_turning (h : s.Sound T total value) (hw : 0 < w) :
    (s.turning T).Exact := by
  cases hselect : (s.forest.select s.current).1 with
  | none =>
    rw [turning_of_exhausted hselect]
    exact Recorded.exact_pure _
  | some v =>
    cases hbridge : (s.selected.grow T s.residual.support v).1 with
    | none =>
      rw [turning_of_no_bridge hselect hbridge]
      exact Recorded.exact_pure _
    | some bridge =>
      rw [turning_of_bridge ⟨hselect, hbridge⟩]
      have hpath := (h.moved hw ⟨hselect, hbridge⟩).1
      exact Recorded.exact_bind (Recorded.exact_bind (h.balanced.exact_augmenting hw hpath)
        (Recorded.exact_pure _)) (Recorded.exact_pure _)

omit s in
/-- What a turn executes that augments a path. -/
theorem length_operations_turning {s : Search (Signed w) n m} {v : Fin n} {bridge : Arc m}
    (h : s.Finds T v bridge) :
    (s.turning T).operations.length = 2 * (s.path T v bridge).arcs.length + 4 := by
  rw [turning_of_bridge h, Recorded.length_operations_bind]
  exact (Recorded.length_operations_bind _ _).trans
    (s.residual.length_operations_augmenting (s.path T v bridge))

/-- Where no path is augmented, there is nothing to compute. -/
theorem operations_turning (h : ∀ v bridge, ¬s.Finds T v bridge) :
    (s.turning T).operations = [] := by
  cases hselect : (s.forest.select s.current).1 with
  | none =>
    rw [turning_of_exhausted hselect]
    rfl
  | some v =>
    cases hbridge : (s.selected.grow T s.residual.support v).1 with
    | none =>
      rw [turning_of_no_bridge hselect hbridge]
      rfl
    | some bridge => exact (h v bridge ⟨hselect, hbridge⟩).elim

/-- **A search for which a total accounts for all amounts**, so that it goes on without
overflow. -/
structure Accounted (T : Topology n m) (total : Int) (s : Search (Signed w) n m) : Prop where
  /-- The total is made up of the flow, counted twice, and what is left. -/
  total_eq : total = 2 * s.residual.flow.toInt
    + ∑ v, |(s.residual.excess v).toInt| + ∑ a, (s.residual.residual a).toInt
  /-- The turn on the record is the turn. -/
  value_turning : (s.turning T).value = turn T s
  /-- None of its operations overflows. -/
  exact_turning : (s.turning T).Exact
  /-- A turn that augments a path executes two operations for each of its arcs, and four for its
  roots and the flow. -/
  length_operations_of_finds {v : Fin n} {bridge : Arc m} : s.Finds T v bridge →
    (s.turning T).operations.length = 2 * (s.path T v bridge).arcs.length + 4
  /-- Any other turn executes none. -/
  operations_of_not_finds : (∀ v bridge, ¬s.Finds T v bridge) → (s.turning T).operations = []

/-- So does the total by which a sound search is balanced. -/
theorem Sound.accounted (h : s.Sound T total value) (hw : 0 < w) : s.Accounted T total where
  total_eq := h.balanced.ledger.symm
  value_turning := rfl
  exact_turning := h.exact_turning hw
  length_operations_of_finds := length_operations_turning
  operations_of_not_finds := operations_turning

end Search

/-- **The total of a network accounts for every amount** while it is built, at each state of the
search on it, and at the last one, with which it is solved. -/
structure Network.StaysAccounted (net : Network (Signed w)) : Prop where
  /-- It accounts for them before the search. -/
  accounted : net.Accounted
  /-- It accounts for them at each state of it. -/
  visited : ∀ s, Search.Visited net.topology net.residual s →
    s.Accounted net.topology net.total.toInt
  /-- It accounts for them in the solved graph, which is at such a state. -/
  ends : ∃ solution final, (Graph.building net).solve = .ok solution
    ∧ solution.graph = .solved net final ∧ Search.Visited net.topology net.residual final

namespace Graph

/-- **The total accounts for every amount** while a graph is built, at every state of
the search, and when it is solved, and nothing overflows on the way. -/
theorem solve_accounted (hw : 0 < w) (calls : List (Call (Signed w)))
    (hcalls : ∀ c ∈ calls, c.builds = true) : Builds calls Network.StaysAccounted := by
  obtain ⟨net, hanswers, hbalanced, _⟩ := empty_answers hw hcalls
  obtain ⟨final, hsearch, hvisited, _⟩ := hbalanced.search hw
  obtain ⟨solution, hsolve, hgraph, _⟩ := solve_building hsearch
  exact ⟨net, hanswers, hbalanced.accounted hw,
    fun s hs => (hs.sound hw hbalanced.residual).accounted hw, solution, final, hsolve, hgraph,
    hvisited⟩

/-- Calls whose capacities add up to the greatest word of eight bits. -/
def brim : List (Call (Signed 8)) :=
  [.addNodes 2, .addTerminal 0 (.ofInt 20) (.ofInt 50), .addTerminal 1 (.ofInt 40) 0,
    .addEdge ⟨0, 1, .ofInt 17, 0⟩]

/-- Two nodes with nothing to spare below the limit of the type: the total is the greatest word of
eight bits. -/
theorem solve_accounted_brim : (0 < 8 ∧ ∀ c ∈ brim, c.builds = true)
    ∧ Builds brim Network.StaysAccounted := by
  have hw : 0 < 8 := by decide
  have hcalls : ∀ c ∈ brim, c.builds = true := by decide
  exact ⟨⟨hw, hcalls⟩, solve_accounted hw brim hcalls⟩

end Graph

end MinCut
