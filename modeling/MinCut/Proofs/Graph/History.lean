import MinCut.Call
import MinCut.Proofs.Network.Building
import MinCut.Proofs.Search.Run

/-!
# What a history of calls amounts to

A cut of a graph has a value that can be told from the calls alone: each accepted
call adds what it says, and refused calls add nothing (`cutValue`). The network
that the calls have built has the same value for every cut, although it keeps only
differences at the nodes and counts the rest as flow (`Graph.building_answers`).

What is proved of a graph is mostly proved of the network that calls have built
(`Graph.Builds`) and of the search on it. Either each state that the search goes through has
a property, and the search ends (`Network.Throughout`), or some state has it
(`Network.Sometimes`).

For a call, adding to the value of a cut and being accepted are separate matters. A call that is
refused leaves the network as it is and is not among the accepted calls, so it adds nothing on
either side, and both cases are dealt with at once (`Graph.building_of_result`).
-/

namespace MinCut

/-! ## Histories -/

section Histories

variable {α : Type} [Capacity α]

/-- Whether a call adds to a graph. -/
def Call.builds : Call α → Bool
  | addNodes _ => true
  | addTerminal .. => true
  | addEdge _ => true
  | _ => false

/-- **The calls that a graph accepts**, of a list of calls made one after the
other. -/
def Graph.accepted (g : Graph α) : List (Call α) → List (Call α)
  | [] => []
  | c :: calls =>
    match g.answer c with
    | (.ok _, g) => c :: g.accepted calls
    | (.error _, g) => g.accepted calls

/-- The first call is answered before the others. -/
theorem Graph.answers_cons (g : Graph α) (c : Call α) (calls : List (Call α)) :
    (g.answers (c :: calls)).2 = ((g.answer c).2.answers calls).2 := rfl

/-- Whether it is accepted does not depend on the others. -/
theorem Graph.accepted_cons (g : Graph α) (c : Call α) (calls : List (Call α)) :
    g.accepted (c :: calls) = g.accepted [c] ++ (g.answer c).2.accepted calls := by
  rw [accepted, accepted]
  split <;> rename_i h <;> rw [h] <;> rfl

/-- Which of the later calls are accepted is decided by the graph that the earlier ones leave. -/
theorem Graph.accepted_append (g : Graph α) (calls later : List (Call α)) :
    g.accepted (calls ++ later) = g.accepted calls ++ (g.answers calls).2.accepted later := by
  induction calls generalizing g with
  | nil => rfl
  | cons c calls ih =>
    rw [List.cons_append, accepted_cons, ih, accepted_cons g c calls, answers_cons,
      List.append_assoc]

end Histories

variable {w : Nat}

/-- **What a call adds to the value of a cut**: at a node the capacity toward the
sink if it is inside and that from the source if it is outside, between nodes the
capacity that leads out. -/
def Call.weight (X : Finset Nat) : Call (Signed w) → Int
  | addTerminal node sink source => if node ∈ X then sink.toInt else source.toInt
  | addEdge edge => edge.across X
  | _ => 0

/-- **The value of a cut** after a list of accepted calls. -/
def cutValue (calls : List (Call (Signed w))) (X : Finset Nat) : Int :=
  (calls.map (Call.weight X)).sum

/-- A cut gets its value from both of two lists. -/
theorem cutValue_append (calls calls' : List (Call (Signed w))) (X : Finset Nat) :
    cutValue (calls ++ calls') X = cutValue calls X + cutValue calls' X := by
  unfold cutValue
  rw [List.map_append, List.sum_append]

/-! ## Building -/

namespace Graph

variable {net : Network (Signed w)} {c : Call (Signed w)}

/-- What an accepted call adds up to. -/
theorem building_of_ok {net' : Network (Signed w)} {a : Answer (Signed w)}
    (hc : (building net).call c = .ok (a, building net')) (h : net'.Balanced)
    (hcut : ∀ X, net'.cut X = net.cut X + c.weight X) :
    ∃ net', ((building net).answer c).2 = building net' ∧ net'.Balanced
      ∧ ∀ X, net'.cut X = net.cut X + cutValue ((building net).accepted [c]) X := by
  have hanswer : (building net).answer c = (.ok a, building net') := by
    unfold answer
    rw [hc]
  have haccepted : (building net).accepted [c] = [c] := by
    unfold accepted
    rw [hanswer]
    rfl
  rw [hanswer, haccepted]
  refine ⟨net', rfl, h, fun X => (hcut X).trans ?_⟩
  rw [cutValue, List.map_singleton, List.sum_singleton]

/-- What a call that may be refused adds up to: nothing if it is. -/
theorem building_of_result {result : Except (Fault (Signed w)) (Network (Signed w))}
    (h : net.Balanced)
    (hc : (building net).call c = (.done, ·) <$> (building <$> result))
    (hok : ∀ net', result = .ok net' →
      net'.Balanced ∧ ∀ X, net'.cut X = net.cut X + c.weight X) :
    ∃ net', ((building net).answer c).2 = building net' ∧ net'.Balanced
      ∧ ∀ X, net'.cut X = net.cut X + cutValue ((building net).accepted [c]) X := by
  cases result with
  | ok net' =>
    obtain ⟨hbalanced, hcut⟩ := hok net' rfl
    exact building_of_ok hc hbalanced hcut
  | error fault =>
    have hanswer : (building net).answer c = (.error fault, building net) := by
      unfold answer
      rw [hc]
      rfl
    have haccepted : (building net).accepted [c] = [] := by
      unfold accepted
      rw [hanswer]
      rfl
    rw [hanswer, haccepted]
    exact ⟨net, rfl, h, fun X => (add_zero _).symm⟩

/-- **One call** to a graph under construction. -/
theorem building_answer (h : net.Balanced) (hw : 0 < w) (hc : c.builds = true) :
    ∃ net', ((building net).answer c).2 = building net' ∧ net'.Balanced
      ∧ ∀ X, net'.cut X = net.cut X + cutValue ((building net).accepted [c]) X := by
  cases c with
  | addNodes count =>
    obtain ⟨hbalanced, hcut⟩ := h.addNodes count
    have hok : (building net).call (.addNodes count)
        = .ok (.number net.nodeCount, building (net.addNodes count)) := rfl
    exact building_of_ok hok hbalanced fun X => (hcut X).trans (add_zero _).symm
  | addTerminal node sink source =>
    exact building_of_result h rfl fun net' => h.addTerminal hw
  | addEdge edge => exact building_of_result h rfl fun net' => h.addEdge hw
  | _ => exact absurd hc (by simp [Call.builds])

/-- **What a list of calls has built.** -/
theorem building_answers (hw : 0 < w) {calls : List (Call (Signed w))}
    (hcalls : ∀ c ∈ calls, c.builds = true) (h : net.Balanced) :
    ∃ net', ((building net).answers calls).2 = building net' ∧ net'.Balanced
      ∧ ∀ X, net'.cut X = net.cut X + cutValue ((building net).accepted calls) X := by
  induction calls generalizing net with
  | nil => exact ⟨net, rfl, h, fun X => (add_zero _).symm⟩
  | cons c calls ih =>
    obtain ⟨net₁, hanswer, hbalanced₁, hcut₁⟩ :=
      building_answer h hw (hcalls c List.mem_cons_self)
    obtain ⟨net₂, hanswers, hbalanced₂, hcut₂⟩ :=
      ih (fun c hc => hcalls c (List.mem_cons_of_mem _ hc)) hbalanced₁
    rw [answers_cons, accepted_cons, hanswer, hanswers]
    refine ⟨net₂, rfl, hbalanced₂, fun X => ?_⟩
    rw [hcut₂, hcut₁, cutValue_append, Int.add_assoc]

/-- **What calls build**: the graph after them is under construction, and its network has the
property. -/
def Builds (calls : List (Call (Signed w))) (P : Network (Signed w) → Prop) : Prop :=
  ∃ net, ((empty : Graph (Signed w)).answers calls).2 = building net ∧ P net

/-- **What has been built from nothing.** -/
theorem empty_answers (hw : 0 < w) {calls : List (Call (Signed w))}
    (hcalls : ∀ c ∈ calls, c.builds = true) :
    Builds calls fun net => net.Balanced
      ∧ net.cut = cutValue ((empty : Graph (Signed w)).accepted calls) := by
  obtain ⟨net, hanswers, hbalanced, hcut⟩ := building_answers hw hcalls Network.empty_balanced
  refine ⟨net, hanswers, hbalanced, funext fun X => ?_⟩
  rw [hcut, Network.cut_empty, zero_add]
  rfl

end Graph

/-! ## Searching -/

/-- **The search on a balanced network ends**, and has made up for every cut. -/
theorem Network.Balanced.search {net : Network (Signed w)} (h : net.Balanced) (hw : 0 < w) :
    ∃ final, net.search = some final ∧ Search.Visited net.topology net.residual final
      ∧ final.Finished net.topology net.total.toInt net.cut := by
  obtain ⟨final, hrun, hvisited, hfinished⟩ :=
    Search.run_spec (T := net.topology) h.residual hw
  have hcut : (fun X => net.residual.flow.toInt + net.residual.crossing net.topology X)
      = net.cut := funext net.flow_add_crossing
  rw [hcut] at hfinished
  exact ⟨final, hrun, hvisited, hfinished⟩

namespace Network

/-- **What holds throughout a search**, that on a network: each state that the search goes through
has the property, and the search comes to its end in such a state. -/
structure Throughout (net : Network (Signed w))
    (P : Search (Signed w) net.nodeCount net.edgeCount → Prop) : Prop where
  /-- Each state has the property. -/
  visited : ∀ s, Search.Visited net.topology net.residual s → P s
  /-- One of them is the end. -/
  ends : ∃ final, net.search = some final ∧ Search.Visited net.topology net.residual final

/-- **What holds at some time** in the search on a network. -/
def Sometimes (net : Network (Signed w))
    (P : Search (Signed w) net.nodeCount net.edgeCount → Prop) : Prop :=
  ∃ s, Search.Visited net.topology net.residual s ∧ P s

end Network

namespace Graph

variable {calls : List (Call (Signed w))}

/-- There is only one network that calls build. -/
theorem Builds.and {P Q : Network (Signed w) → Prop} (hP : Builds calls P)
    (hQ : Builds calls Q) : Builds calls fun net => P net ∧ Q net := by
  obtain ⟨net, hnet, hp⟩ := hP
  obtain ⟨net', hnet', hq⟩ := hQ
  obtain rfl := building.inj (hnet.symm.trans hnet')
  exact ⟨net, hnet, hp, hq⟩

/-- What follows from a property of the network follows of what the calls build. -/
theorem Builds.imp {P Q : Network (Signed w) → Prop} (hP : Builds calls P)
    (h : ∀ net, P net → Q net) : Builds calls Q := by
  obtain ⟨net, hnet, hp⟩ := hP
  exact ⟨net, hnet, h net hp⟩

/-- **Throughout the search on what calls have built** there holds what holds at each state that
a search on balanced amounts goes through. -/
theorem builds_throughout (hw : 0 < w) (hcalls : ∀ c ∈ calls, c.builds = true)
    {P : (net : Network (Signed w)) → Search (Signed w) net.nodeCount net.edgeCount → Prop}
    (h : ∀ {net : Network (Signed w)}, net.residual.Balanced net.total.toInt →
      ∀ s, Search.Visited net.topology net.residual s → P net s) :
    Builds calls fun net => net.Throughout (P net) := by
  obtain ⟨net, hanswers, hbalanced, _⟩ := empty_answers hw hcalls
  obtain ⟨final, hsearch, hvisited, _⟩ := hbalanced.search hw
  exact ⟨net, hanswers, h hbalanced.residual, final, hsearch, hvisited⟩

end Graph

end MinCut
