import MinCut.Proofs.Graph.Tally

/-!
# What is left at the terminals

A node keeps one number for both terminals, and each call that gives it capacity folds two
more into it and credits to the flow what both of them then share. Many such calls amount to
one. What the node has left is the difference of all it was given at the source and all it was
given at the sink, and what has been credited is the lesser of both (`Network.Folds`), however
often the difference has changed its sign on the way.

So the terminals do not show in which order the capacities came and how the calls divided them
(`Graph.answers_folds`).

The two sums are taken over all calls at once, and what a node keeps is taken call by call. That the
two agree is an invariant of the calls, and it is the capacities of one call that need an argument.
What two sums share, and their difference, are known when the lesser of both is taken away from each
of them first.
-/

namespace MinCut

open Finset

variable {w : Nat} {past : List (Call (Signed w))} {c : Call (Signed w)}

/-- What one more call gives is added. -/
theorem givenTo_concat (past : List (Call (Signed w))) (c : Call (Signed w)) (side : Side)
    (v : Nat) : givenTo (past ++ [c]) side v = givenTo past side v + c.given side v := by
  unfold givenTo
  rw [List.map_append, List.sum_append, List.map_singleton, List.sum_singleton]

/-- **A network that has folded what the calls give** its nodes at the terminals. -/
structure Network.Folds (past : List (Call (Signed w))) (net : Network (Signed w)) : Prop where
  /-- A node has left what the source gives it beyond the sink, or the reverse. -/
  excessAt_eq (v : Nat) : net.excessAt v = givenTo past .source v - givenTo past .sink v
  /-- The flow is what both terminals give the nodes alike. -/
  flow_eq : net.flow.toInt
    = ∑ v ∈ range net.nodeCount, min (givenTo past .source v) (givenTo past .sink v)
  /-- Nothing is given to a node that does not exist. -/
  givenTo_eq_zero {side : Side} {v : Nat} : net.nodeCount ≤ v → givenTo past side v = 0

namespace Network.Folds

variable {net net' : Network (Signed w)}

/-- No call gives anything, and nothing is left. -/
theorem empty : (Network.empty : Network (Signed w)).Folds [] where
  excessAt_eq v := by
    show (Signed.toInt (#[].getD v 0) : Int) = 0
    rw [Array.getD_eq_getD_getElem?, Array.getElem?_empty]
    exact Signed.toInt_zero
  flow_eq := Signed.toInt_zero
  givenTo_eq_zero _ := rfl

/-- A call that gives nothing and leaves the terminals as they are. -/
theorem concat_of_given (h : net.Folds past) (hc : ∀ side v, c.given side v = 0)
    (hexcesses : net'.excesses = net.excesses) (hflow : net'.flow = net.flow) :
    net'.Folds (past ++ [c]) := by
  have hgiven (side : Side) (v : Nat) : givenTo (past ++ [c]) side v = givenTo past side v := by
    rw [givenTo_concat, hc, add_zero]
  have hcount : net'.nodeCount = net.nodeCount := congrArg Array.size hexcesses
  refine ⟨fun v => ?_, ?_, fun {side v} hv => ?_⟩
  · rw [hgiven, hgiven, ← h.excessAt_eq]
    unfold excessAt
    rw [hexcesses]
  · simp only [hgiven, hcount, hflow, h.flow_eq]
  · rw [hgiven]
    exact h.givenTo_eq_zero (hcount ▸ hv)

/-- Nodes come without capacity, and so far nothing was given to them. -/
theorem addNodes (h : net.Folds past) (count : Nat) :
    (net.addNodes count).Folds (past ++ [.addNodes count]) := by
  have hgiven (side : Side) (v : Nat) :
      givenTo (past ++ [.addNodes count]) side v = givenTo past side v := by
    rw [givenTo_concat]
    exact add_zero _
  have hcount : (net.addNodes count).nodeCount = net.nodeCount + count := by
    simp [nodeCount, Network.addNodes]
  refine ⟨fun v => ?_, ?_, fun {side v} hv => ?_⟩
  · rw [hgiven, hgiven, excessAt_addNodes, h.excessAt_eq]
  · have hnew (side : Side) (k : Nat) : givenTo past side (net.nodeCount + k) = 0 :=
      h.givenTo_eq_zero (Nat.le_add_right _ k)
    rw [hcount, sum_range_add]
    simp only [hgiven, hnew, min_self, sum_const_zero, add_zero]
    exact h.flow_eq
  · rw [hcount] at hv
    rw [hgiven]
    exact h.givenTo_eq_zero ((Nat.le_add_right _ _).trans hv)

/-- **Capacity given to a node** is folded into what it has left. With what the lesser sum takes
of both away, the old difference stands on one side only, and this is where the new capacities
are added to it. -/
theorem addTerminal (h : net.Folds past) (hbalanced : net.Balanced) (hw : 0 < w) {node : Nat}
    {sink source : Signed w} (hok : net.addTerminal node sink source = .ok net') :
    net'.Folds (past ++ [.addTerminal node sink source]) := by
  obtain ⟨hn, left, hexcesses, _, hleft, hflow⟩ := hbalanced.addTerminal_spec hw hok
  have hcount : net'.nodeCount = net.nodeCount := by
    unfold nodeCount
    rw [hexcesses, Array.size_set]
  have hsource (v : Nat) : givenTo (past ++ [.addTerminal node sink source]) .source v
      = givenTo past .source v + if node = v then source.toInt else 0 := givenTo_concat ..
  have hsink (v : Nat) : givenTo (past ++ [.addTerminal node sink source]) .sink v
      = givenTo past .sink v + if node = v then sink.toInt else 0 := givenTo_concat ..
  have hat := h.excessAt_eq node
  refine ⟨fun v => ?_, ?_, fun {side v} hv => ?_⟩
  · rw [hsource, hsink, excessAt_set hn hexcesses]
    by_cases hv : node = v
    · subst hv
      rw [if_pos rfl, if_pos rfl, if_pos rfl, hleft, hat]
      omega
    · rw [if_neg hv, if_neg hv, if_neg (Ne.symm hv), add_zero, add_zero, h.excessAt_eq]
  · -- the share grows at this node only, and there by what the call credits
    have hshare (v : Nat) :
        min (givenTo past .source v + if node = v then source.toInt else 0)
          (givenTo past .sink v + if node = v then sink.toInt else 0)
        = min (givenTo past .source v) (givenTo past .sink v)
          + if node = v then min (source.toInt + max (net.excessAt node) 0)
              (sink.toInt + max (-net.excessAt node) 0) else 0 := by
      by_cases hv : node = v
      · subst hv
        rw [if_pos rfl, if_pos rfl, if_pos rfl, hat]
        omega
      · rw [if_neg hv, if_neg hv, if_neg hv, add_zero, add_zero, add_zero]
    simp only [hsource, hsink, hshare, sum_add_distrib]
    rw [hcount, sum_ite_eq, if_pos (mem_range.2 hn), ← h.flow_eq, hflow]
  · rw [hcount] at hv
    have hne : node ≠ v := (hn.trans_le hv).ne
    rw [givenTo_concat, h.givenTo_eq_zero hv, zero_add]
    exact if_neg hne

/-- **Networks that have folded the same** stand alike at the terminals. -/
theorem terminals_eq {past' : List (Call (Signed w))} (h : net.Folds past)
    (h' : net'.Folds past') (hcount : net'.nodeCount = net.nodeCount)
    (hgiven : ∀ side, ∀ v < net.nodeCount, givenTo past' side v = givenTo past side v) :
    net'.excesses = net.excesses ∧ net'.flow = net.flow := by
  refine ⟨Array.ext hcount fun v hv' hv => ?_, Signed.toInt_inj.1 ?_⟩
  · have heq : net'.excessAt v = net.excessAt v := by
      rw [h'.excessAt_eq, h.excessAt_eq, hgiven _ v hv, hgiven _ v hv]
    rw [net'.excessAt_eq hv', net.excessAt_eq hv] at heq
    exact Signed.toInt_inj.1 heq
  · rw [h'.flow_eq, h.flow_eq, hcount]
    refine sum_congr rfl fun v hv => ?_
    rw [hgiven _ v (mem_range.1 hv), hgiven _ v (mem_range.1 hv)]

end Network.Folds

/-! ## Histories of calls -/

namespace Graph

variable {g : Graph (Signed w)}

/-- **An accepted call is folded** into a graph under construction. -/
theorem Keeps.folds_answer (h : g.Keeps past) (hw : 0 < w) (hc : c.refusal past = none)
    (hg : ∀ net, g = building net → net.Folds past) :
    ∀ net, (g.answer c).2 = building net → net.Folds (past ++ [c]) := by
  intro net' hnet'
  rw [← h.fault?_answer hw, Graph.fault?_answer] at hc
  cases g with
  | building net =>
    have hnet := hg net rfl
    obtain ⟨hbalanced, _⟩ := h.inStage
    cases c with
    | addNodes count =>
      cases hnet'
      exact hnet.addNodes count
    | addTerminal node sink source =>
      obtain ⟨added, hok, hanswer⟩ := answer_of_adds rfl hc
      cases hanswer.symm.trans hnet'
      exact hnet.addTerminal hbalanced hw hok
    | addEdge edge =>
      obtain ⟨added, hok, hanswer⟩ := answer_of_adds rfl hc
      cases hanswer.symm.trans hnet'
      obtain ⟨_, hexcesses, _, hflow⟩ := Network.addEdge_eq_ok hok
      exact hnet.concat_of_given (fun _ _ => rfl) hexcesses hflow
    | solve =>
      obtain ⟨final, hsearch, _⟩ := hbalanced.search hw
      -- a graph that has been solved is not under construction any more
      cases (answer_solve hsearch).symm.trans hnet'
    | side node =>
      rw [answer_side] at hnet'
      cases hnet'
      exact hnet.concat_of_given (fun _ _ => rfl) rfl rfl
    | _ =>
      cases hnet'
      exact hnet.concat_of_given (fun _ _ => rfl) rfl rfl
  | solved net final =>
    rw [answer_solved] at hnet'
    cases hnet'

/-- **What calls have built has folded what they give**, if none of them is to solve it. -/
theorem empty_folds (hw : 0 < w) {calls : List (Call (Signed w))}
    (hcalls : ∀ c ∈ calls, c.solves = false) :
    Builds calls fun net => net.Folds (empty.accepted calls)
      ∧ net.nodeCount = nodesAdded (empty.accepted calls) := by
  have hkeeps : (empty.answers calls).2.Keeps (empty.accepted calls) :=
    empty_keeps.answers hw calls
  have hempty : ∀ net, (empty : Graph (Signed w)) = building net → net.Folds [] := by
    intro net hnet
    cases hnet
    exact Network.Folds.empty
  have hfolds : ∀ net, (empty.answers calls).2 = building net →
      net.Folds (empty.accepted calls) :=
    Keeps.answers_induction (motive := fun past g => ∀ net, g = building net → net.Folds past)
      hw (fun h hc hg => h.folds_answer hw hc hg) empty_keeps hempty calls
  have hunsolved : solvedBy (empty.accepted calls) = false := by
    refine List.any_eq_false.2 fun c hc => ?_
    rw [hcalls c ((empty.accepted_sublist calls).subset hc)]
    exact Bool.false_ne_true
  have hstage := hkeeps.inStage
  have hcount := hkeeps.nodeCount_eq
  rcases hgraph : (empty.answers calls).2 with net | ⟨net, final⟩
  · rw [hgraph] at hcount
    exact ⟨net, hgraph, hfolds net hgraph, hcount⟩
  · rw [hgraph] at hstage
    exact absurd (hunsolved.symm.trans hstage) Bool.false_ne_true

/-- **The terminals stand as the sums of what was given say**: a node has left the difference
of both, the lesser is in the flow, and calls that divide or order the capacities in another
way lead to the same. -/
theorem answers_folds (hw : 0 < w) (calls : List (Call (Signed w)))
    (hcalls : ∀ c ∈ calls, c.solves = false) :
    Builds calls fun net => net.Folds (empty.accepted calls)
      ∧ ∀ calls' : List (Call (Signed w)), (∀ c ∈ calls', c.solves = false) →
        nodesAdded (empty.accepted calls') = nodesAdded (empty.accepted calls) →
        (∀ side, ∀ v < nodesAdded (empty.accepted calls),
          givenTo (empty.accepted calls') side v = givenTo (empty.accepted calls) side v) →
        Builds calls' fun net' => net'.excesses = net.excesses ∧ net'.flow = net.flow := by
  obtain ⟨net, hanswers, hfolds, hcount⟩ := empty_folds hw hcalls
  refine ⟨net, hanswers, hfolds, fun calls' hcalls' hnodes hgiven => ?_⟩
  obtain ⟨net', hanswers', hfolds', hcount'⟩ := empty_folds hw hcalls'
  rw [← hcount] at hgiven
  exact ⟨net', hanswers',
    hfolds.terminals_eq hfolds' (hcount'.trans (hnodes.trans hcount.symm)) hgiven⟩

/-- Capacities in small parts at two nodes, so that the difference at the first of them
changes its sign twice. The second call is refused, and so is the last. -/
def parts : List (Call (Signed 8)) :=
  [.addNodes 1, .addTerminal 1 0 (.ofInt 6), .addTerminal 0 (.ofInt 3) (.ofInt 5),
    .addTerminal 0 (.ofInt 4) 0, .addNodes 1, .addEdge ⟨0, 1, .ofInt 7, 0⟩,
    .addTerminal 1 0 (.ofInt 6), .addTerminal 0 0 (.ofInt 3), .addTerminal 1 (.ofInt 2) 0,
    .flow, .addTerminal 1 (.ofInt (-1)) 0]

/-- The same capacities, given at once. -/
def partsJoined : List (Call (Signed 8)) :=
  [.addNodes 2, .addTerminal 1 (.ofInt 2) (.ofInt 6), .addTerminal 0 (.ofInt 7) (.ofInt 8)]

/-- Two nodes with capacities in parts, and with the same at once. -/
theorem answers_folds_parts : (0 < 8 ∧ ∀ c ∈ parts, c.solves = false)
    ∧ Builds parts fun net => net.Folds (empty.accepted parts)
      ∧ Builds partsJoined fun net' => net'.excesses = net.excesses ∧ net'.flow = net.flow := by
  have hw : 0 < 8 := by decide
  have hcalls : ∀ c ∈ parts, c.solves = false := by decide
  have hgiven (side : Side) : ∀ v < 2,
      givenTo (empty.accepted partsJoined) side v = givenTo (empty.accepted parts) side v := by
    cases side <;> decide
  obtain ⟨net, hanswers, hfolds, hsame⟩ := answers_folds hw parts hcalls
  exact ⟨⟨hw, hcalls⟩, net, hanswers, hfolds, hsame partsJoined (by decide) rfl hgiven⟩

end Graph

end MinCut
