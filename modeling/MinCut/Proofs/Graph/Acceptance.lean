import MinCut.Proofs.Graph.Optimality

/-!
# Which calls are accepted

Whether a call is accepted can be told from the calls accepted before it, and so can the
fault with which it is refused otherwise. All that counts is how many nodes they have
added, what their capacities add up to in integers, and whether one of them was to
solve the graph (`Call.refusal`). This is what a graph keeps (`Graph.Keeps`), through
every history of calls, whatever they are and in whatever order they come.

A refused call leaves nothing behind. So the calls that have been accepted make the
same graph by themselves, and are answered in the same way
(`Graph.answers_accepted`).

What is said of all calls is proved call by call, in three steps: what a graph keeps of a history
tells the fault of the next call (`Graph.Keeps.fault?_answer`), an accepted call is added to what it
keeps (`Graph.Keeps.answer`), and a list of calls goes through both of them in turn
(`Graph.Keeps.answers_induction`).
-/

namespace MinCut

/-! ## Histories without the refused calls

A call that is refused leaves the graph as it was, so the calls that are accepted lead to the same
graph without it. The first lemmas say how the answers to a list of calls are made up of the answers
to single ones, and `Graph.answers_accepted` puts this together. -/

section Histories

variable {α : Type} [Capacity α]

/-- The fault with which a call is refused. -/
def fault? {ε β : Type} : Except ε β → Option ε
  | .error fault => some fault
  | .ok _ => none

/-- What is made of a result does not change its fault. -/
theorem fault?_map {ε β γ : Type} (f : β → γ) (result : Except ε β) :
    fault? (f <$> result) = fault? result := by
  cases result <;> rfl

namespace Graph

/-- A call is refused with a fault that the graph finds in it. -/
theorem fault?_answer (g : Graph α) (c : Call α) : fault? (g.answer c).1 = fault? (g.call c) := by
  unfold answer
  split <;> rename_i h <;> rw [h] <;> rfl

/-- A call is accepted, or refused with no effect. -/
theorem answer_cases (g : Graph α) (c : Call α) :
    (∃ a g', g.answer c = (.ok a, g')) ∨ ∃ fault, g.answer c = (.error fault, g) := by
  unfold answer
  split
  · exact .inl ⟨_, _, rfl⟩
  · exact .inr ⟨_, rfl⟩

/-- An accepted call comes first among those accepted. -/
theorem accepted_of_ok {g g' : Graph α} {c : Call α} {a : Answer α}
    (h : g.answer c = (.ok a, g')) (calls : List (Call α)) :
    g.accepted (c :: calls) = c :: g'.accepted calls := by
  rw [accepted, h]

/-- A refused call is not among them. -/
theorem accepted_of_error {g : Graph α} {c : Call α} {fault : Fault α}
    (h : g.answer c = (.error fault, g)) (calls : List (Call α)) :
    g.accepted (c :: calls) = g.accepted calls := by
  rw [accepted, h]

/-- The accepted calls are among those made. -/
theorem accepted_sublist (g : Graph α) (calls : List (Call α)) :
    List.Sublist (g.accepted calls) calls := by
  induction calls generalizing g with
  | nil => exact .slnil
  | cons c calls ih =>
    rcases g.answer_cases c with ⟨a, g', hanswer⟩ | ⟨fault, hanswer⟩
    · rw [accepted_of_ok hanswer]
      exact (ih g').cons_cons c
    · rw [accepted_of_error hanswer]
      exact (ih g).cons c

/-- **Where all calls are accepted**, the first one is, and so are the others after it. -/
theorem answer_of_accepted_eq {g : Graph α} {c : Call α} {calls : List (Call α)}
    (h : g.accepted (c :: calls) = c :: calls) :
    ∃ a g', g.answer c = (.ok a, g') ∧ g'.accepted calls = calls := by
  rcases g.answer_cases c with ⟨a, g', hanswer⟩ | ⟨fault, hanswer⟩
  · rw [accepted_of_ok hanswer] at h
    exact ⟨a, g', hanswer, (List.cons.inj h).2⟩
  · rw [accepted_of_error hanswer] at h
    have hlength := (g.accepted_sublist calls).length_le
    rw [h, List.length_cons] at hlength
    exact absurd hlength (Nat.not_succ_le_self _)

/-- The first call is answered, and then the others by what it has made of the graph. -/
theorem answers_cons_eq (g : Graph α) (c : Call α) (calls : List (Call α)) :
    g.answers (c :: calls) = ((g.answer c).1 :: ((g.answer c).2.answers calls).1,
      ((g.answer c).2.answers calls).2) := rfl

/-- A call that adds to a network and is accepted gives the network it has made. -/
theorem answer_of_adds {g : Graph α} {c : Call α} {result : Except (Fault α) (Network α)}
    (h : g.call c = (.done, ·) <$> (building <$> result)) (hc : fault? (g.call c) = none) :
    ∃ net, result = .ok net ∧ (g.answer c).2 = building net := by
  unfold answer
  rw [h] at hc ⊢
  cases result with
  | ok net => exact ⟨net, rfl, rfl⟩
  | error fault => cases hc

/-- Asking for a side does not change a graph, whatever the answer. -/
theorem answer_side (g : Graph α) (node : Nat) : (g.answer (.side node)).2 = g := by
  have hcall : g.call (.side node) = (.side ·, g) <$> g.side node := rfl
  unfold answer
  rw [hcall]
  cases g.side node <;> rfl

/-- A solved graph is not changed by any call. -/
theorem answer_solved (net : Network α) (final : Search α net.nodeCount net.edgeCount)
    (c : Call α) : ((solved net final).answer c).2 = solved net final := by
  cases c with
  | side node => exact answer_side _ node
  | _ => rfl

end Graph

/-- How many nodes a call adds. -/
def Call.nodes : Call α → Nat
  | addNodes count => count
  | _ => 0

/-- Whether a call is to solve the graph. -/
def Call.solves : Call α → Bool
  | solve => true
  | _ => false

end Histories

/-! ## What a history adds up to

What a graph will refuse depends on few things: the number of its nodes, the sum of all capacities,
and whether it has been solved. All three are functions of the calls that have been accepted, and
with them the refusal of a call can be stated without a graph (`Call.refusal`). -/

variable {w : Nat}

/-- What the capacities of a call add up to. -/
def Call.capacity : Call (Signed w) → Int
  | addTerminal _ sink source => sink.toInt + source.toInt
  | addEdge edge => edge.capacity.toInt + edge.reverse.toInt
  | _ => 0

variable {past : List (Call (Signed w))} {c : Call (Signed w)}

/-- How many nodes the calls of a history have added. -/
def nodesAdded (past : List (Call (Signed w))) : Nat := (past.map Call.nodes).sum

/-- **What all their capacities add up to**, in integers. -/
def capacityAdded (past : List (Call (Signed w))) : Int := (past.map Call.capacity).sum

/-- Whether one of them was to solve the graph. -/
def solvedBy (past : List (Call (Signed w))) : Bool := past.any Call.solves

/-- One more call adds its nodes. -/
theorem nodesAdded_concat : nodesAdded (past ++ [c]) = nodesAdded past + c.nodes := by
  simp [nodesAdded]

/-- It adds its capacities. -/
theorem capacityAdded_concat :
    capacityAdded (past ++ [c]) = capacityAdded past + c.capacity := by
  simp [capacityAdded]

/-- It may be the one that is to solve the graph. -/
theorem solvedBy_concat : solvedBy (past ++ [c]) = (solvedBy past || c.solves) := by
  simp [solvedBy]

namespace Call

/-- What is wrong with nodes: one of them, the first, does not exist. -/
def missing (past : List (Call (Signed w))) (nodes : List Nat) : Option (Fault (Signed w)) :=
  (nodes.find? fun v => nodesAdded past ≤ v).map (.nodeOutOfRange · (nodesAdded past))

/-- What is wrong with capacities: one of them is negative, or with both of them the sum of
all would have no word. -/
def excessive (past : List (Call (Signed w))) (first second : Signed w) :
    Option (Fault (Signed w)) :=
  if first.toInt < 0 then some (.negative first)
  else if second.toInt < 0 then some (.negative second)
  else if Signed.maxValue w < capacityAdded past + first.toInt + second.toInt then
    some (.totalOverflow first second (.ofInt (capacityAdded past)))
  else none

/-- **The fault with which a call is refused** after a history of accepted calls, the first
that applies, or none if it is accepted. -/
def refusal (past : List (Call (Signed w))) : Call (Signed w) → Option (Fault (Signed w))
  | addNodes _ => if solvedBy past then some .frozen else none
  | addTerminal node sink source =>
    if solvedBy past then some .frozen
    else (missing past [node]).or (excessive past sink source)
  | addEdge edge =>
    if solvedBy past then some .frozen
    else (missing past [edge.tail, edge.head]).or (excessive past edge.capacity edge.reverse)
  | solve => if solvedBy past then some .alreadySolved else none
  | flow | sourceCut | stats => if solvedBy past then none else some .notSolved
  | side node => (missing past [node]).or (if solvedBy past then none else some .notSolved)
  | sides | nodeCount | arcCount | snapshot => none

end Call

/-! ## Graphs and their histories

The invariant is that the network has as many nodes as the accepted calls have added, that its total
is the sum of their capacities, and that it has been solved if one of them was to solve it
(`Graph.Keeps`). From this a refusal can be told (`Graph.fault?_answer`), and each call keeps it
(`Graph.Keeps.answer`). Induction on the calls then gives the theorem about whole histories. -/

variable {net net' : Network (Signed w)} {first second total : Signed w} {g : Graph (Signed w)}

/-- What is wrong with capacities can be told from the calls accepted before, where the total is the
sum of their capacities. -/
theorem Network.fault?_totalWith (hw : 0 < w) (htotal : net.total.toInt = capacityAdded past)
    (first second : Signed w) :
    fault? (net.totalWith first second) = Call.excessive past first second := by
  unfold totalWith Call.excessive
  simp only [Signed.le_iff, Signed.toInt_zero, not_le]
  split
  · rfl
  · split
    · rfl
    · rename_i hfirst hsecond
      have hnone := Signed.checkedAdd_bind_eq_none_iff hw net.total (not_lt.1 hfirst)
        (not_lt.1 hsecond)
      rw [← htotal, Signed.ofInt_toInt hw]
      cases hsum : (Capacity.checkedAdd net.total first).bind (Capacity.checkedAdd · second) with
      | some total =>
        rw [if_neg fun hlarge => absurd (hsum.symm.trans (hnone.2 hlarge)) (by simp)]
        rfl
      | none =>
        rw [if_pos (hnone.1 hsum)]
        rfl

/-- The first of several nodes is looked for first. -/
theorem Call.missing_cons (past : List (Call (Signed w))) (v : Nat) (nodes : List Nat) :
    missing past (v :: nodes)
      = if v < nodesAdded past then missing past nodes
        else some (.nodeOutOfRange v (nodesAdded past)) := by
  unfold missing
  rw [List.find?_cons]
  by_cases hv : v < nodesAdded past
  · rw [if_pos hv, decide_eq_false (not_le.2 hv)]
  · rw [if_neg hv, decide_eq_true (not_lt.1 hv)]
    rfl

/-- What is wrong with capacity at a node can be told from them, where the nodes are those they have
added. -/
theorem Network.fault?_addTerminal (hw : 0 < w) (htotal : net.total.toInt = capacityAdded past)
    (hcount : net.nodeCount = nodesAdded past) (node : Nat) (sink source : Signed w) :
    fault? (net.addTerminal node sink source)
      = (Call.missing past [node]).or (Call.excessive past sink source) := by
  rw [Call.missing_cons, ← hcount, ← fault?_totalWith hw htotal]
  unfold addTerminal addingTerminal
  split
  · cases net.totalWith sink source <;> rfl
  · rfl

/-- So can what is wrong with an edge. -/
theorem Network.fault?_addEdge (hw : 0 < w) (htotal : net.total.toInt = capacityAdded past)
    (hcount : net.nodeCount = nodesAdded past) (edge : Edge (Signed w)) :
    fault? (net.addEdge edge) = (Call.missing past [edge.tail, edge.head]).or
      (Call.excessive past edge.capacity edge.reverse) := by
  rw [Call.missing_cons, Call.missing_cons, ← hcount, ← fault?_totalWith hw htotal]
  unfold addEdge
  split
  · split
    · cases net.totalWith edge.capacity edge.reverse <;> rfl
    · rfl
  · rfl

namespace Graph

/-- Solving a graph changes its stage. -/
theorem answer_solve {final : Search (Signed w) net.nodeCount net.edgeCount}
    (h : net.search = some final) : ((building net).answer .solve).2 = solved net final := by
  obtain ⟨solution, hsolve, hgraph, _⟩ := solve_building h
  unfold answer call
  rw [hsolve]
  exact hgraph

/-- The stage of a graph: it is under construction as long as no call was to solve it. -/
def InStage (past : List (Call (Signed w))) : Graph (Signed w) → Prop
  | building net => net.Balanced ∧ solvedBy past = false
  | solved .. => solvedBy past = true

/-- **A graph that agrees with the calls it has accepted**: the sums that its answers to later
calls depend on are those of these calls. -/
structure Keeps (past : List (Call (Signed w))) (g : Graph (Signed w)) : Prop where
  /-- The total is the sum of all capacities accepted. -/
  total_eq : g.network.total.toInt = capacityAdded past
  /-- The nodes are those that were added. -/
  nodeCount_eq : g.nodeCount = nodesAdded past
  /-- It has been solved if a call was to solve it. -/
  inStage : g.InStage past

/-- A new graph has accepted no calls. -/
theorem empty_keeps : (empty : Graph (Signed w)).Keeps [] where
  total_eq := Signed.toInt_zero
  nodeCount_eq := rfl
  inStage := ⟨Network.empty_balanced, rfl⟩

namespace Keeps

/-- When asking for a side is refused. -/
theorem fault?_side (h : g.Keeps past) (node : Nat) :
    fault? (g.side node)
      = (Call.missing past [node]).or (if solvedBy past then none else some .notSolved) := by
  rw [Call.missing_cons, ← h.nodeCount_eq]
  obtain ⟨_, _, hstage⟩ := h
  cases g with
  | building net =>
    rw [hstage.2]
    show fault? (if node < net.nodeCount then _ else _) = Option.or (if node < net.nodeCount
      then _ else _) _
    split <;> rfl
  | solved net final =>
    rw [show solvedBy past = true from hstage]
    show fault? (if h : node < net.nodeCount then _ else _) = Option.or (if node < net.nodeCount
      then _ else _) _
    split <;> rfl

/-- **A graph refuses a call for what can be told from its history**, if it agrees with this
history. -/
theorem fault?_answer (h : g.Keeps past) (hw : 0 < w) (c : Call (Signed w)) :
    fault? (g.answer c).1 = c.refusal past := by
  have hside := h.fault?_side
  rw [Graph.fault?_answer]
  unfold Call.refusal
  obtain ⟨htotal, hcount, hstage⟩ := h
  cases g with
  | building net =>
    obtain ⟨hbalanced, hunsolved⟩ := hstage
    rw [hunsolved] at hside ⊢
    cases c with
    | addTerminal node sink source =>
      exact (fault?_map _ _).trans ((fault?_map _ _).trans
        (Network.fault?_addTerminal hw htotal hcount node sink source))
    | addEdge edge =>
      exact (fault?_map _ _).trans ((fault?_map _ _).trans
        (Network.fault?_addEdge hw htotal hcount edge))
    | solve =>
      -- the search ends, so that solving never fails
      obtain ⟨final, hsearch, _⟩ := hbalanced.search hw
      obtain ⟨solution, hsolve, _⟩ := solve_building hsearch
      refine (fault?_map _ _).trans ?_
      rw [hsolve]
      rfl
    | side node => exact (fault?_map _ _).trans (hside node)
    | _ => rfl
  | solved net final =>
    rw [show solvedBy past = true from hstage] at hside ⊢
    cases c with
    | side node => exact (fault?_map _ _).trans (hside node)
    | _ => rfl

/-- Accepting a call that changes the network. -/
theorem concat {g' : Graph (Signed w)} (h : g.Keeps past)
    (htotal : g'.network.total.toInt = g.network.total.toInt + c.capacity)
    (hcount : g'.nodeCount = g.nodeCount + c.nodes) (hstage : g'.InStage (past ++ [c])) :
    g'.Keeps (past ++ [c]) where
  total_eq := by rw [htotal, h.total_eq, capacityAdded_concat]
  nodeCount_eq := by rw [hcount, h.nodeCount_eq, nodesAdded_concat]
  inStage := hstage

/-- Accepting a call that only asks. -/
theorem concat_of_asks (h : g.Keeps past) (hcapacity : c.capacity = 0) (hnodes : c.nodes = 0)
    (hsolves : c.solves = false) : g.Keeps (past ++ [c]) := by
  refine h.concat (by rw [hcapacity, add_zero]) (by rw [hnodes, Nat.add_zero]) ?_
  have hstage := h.inStage
  cases g with
  | building net => exact ⟨hstage.1, by rw [solvedBy_concat, hstage.2, hsolves]; rfl⟩
  | solved net final =>
    show solvedBy (past ++ [c]) = true
    rw [solvedBy_concat, show solvedBy past = true from hstage]
    rfl

/-- **A graph that has accepted a call agrees with its history**, with this call at the end. -/
theorem answer (h : g.Keeps past) (hw : 0 < w) (hc : c.refusal past = none) :
    (g.answer c).2.Keeps (past ++ [c]) := by
  rw [← h.fault?_answer hw, Graph.fault?_answer] at hc
  have hstage := h.inStage
  cases g with
  | building net =>
    obtain ⟨hbalanced, hunsolved⟩ := hstage
    -- a call that builds leaves the graph under construction
    have hstill (hsolves : c.solves = false) : solvedBy (past ++ [c]) = false := by
      rw [solvedBy_concat, hunsolved, hsolves]
      rfl
    cases c with
    | addNodes count =>
      refine h.concat (add_zero _).symm ?_ ⟨(hbalanced.addNodes count).1, hstill rfl⟩
      show (net.excesses ++ Array.replicate count 0).size = net.excesses.size + count
      rw [Array.size_append, Array.size_replicate]
    | addTerminal node sink source =>
      obtain ⟨net', hok, hanswer⟩ := answer_of_adds rfl hc
      obtain ⟨_, htotal, hexcesses, _⟩ := Network.addTerminal_eq_ok hok
      rw [hanswer]
      refine h.concat ?_ ?_ ⟨(hbalanced.addTerminal hw hok).1, hstill rfl⟩
      · exact (Network.totalWith_spec hw htotal).2.2.trans (add_assoc _ _ _)
      · show net'.excesses.size = net.excesses.size
        rw [hexcesses, Array.size_set]
    | addEdge edge =>
      obtain ⟨net', hok, hanswer⟩ := answer_of_adds rfl hc
      obtain ⟨htotal, hexcesses, _⟩ := Network.addEdge_eq_ok hok
      rw [hanswer]
      refine h.concat ?_ ?_ ⟨(hbalanced.addEdge hw hok).1, hstill rfl⟩
      · exact (Network.totalWith_spec hw htotal).2.2.trans (add_assoc _ _ _)
      · show net'.excesses.size = net.excesses.size
        rw [hexcesses]
    | solve =>
      obtain ⟨final, hsearch, _⟩ := hbalanced.search hw
      rw [answer_solve hsearch]
      refine h.concat (add_zero _).symm rfl ?_
      show solvedBy (past ++ [.solve]) = true
      rw [solvedBy_concat]
      exact Bool.or_true _
    | side node =>
      rw [answer_side]
      exact h.concat_of_asks rfl rfl rfl
    | _ => exact h.concat_of_asks rfl rfl rfl
  | solved net final =>
    rw [answer_solved]
    -- only calls that ask something are accepted by a solved graph
    cases c with
    | addNodes _ | addTerminal _ _ _ | addEdge _ | solve => cases hc
    | _ => exact h.concat_of_asks rfl rfl rfl

/-- **What the accepted calls keep one by one**, they keep together. -/
theorem answers_induction {motive : List (Call (Signed w)) → Graph (Signed w) → Prop}
    (hw : 0 < w)
    (answer : ∀ {past : List (Call (Signed w))} {g : Graph (Signed w)} {c : Call (Signed w)},
      g.Keeps past → c.refusal past = none → motive past g → motive (past ++ [c]) (g.answer c).2)
    (h : g.Keeps past) (hg : motive past g) (calls : List (Call (Signed w))) :
    motive (past ++ g.accepted calls) (g.answers calls).2 := by
  induction calls generalizing g past with
  | nil => rwa [accepted, List.append_nil]
  | cons c calls ih =>
    have hfault := h.fault?_answer hw c
    rw [answers_cons]
    rcases g.answer_cases c with ⟨a, g', hanswer⟩ | ⟨fault, hanswer⟩
    · rw [hanswer] at hfault
      have hkeeps := h.answer hw hfault.symm
      have hnext := answer h hfault.symm hg
      rw [hanswer] at hkeeps hnext
      have hrest := ih hkeeps hnext
      rw [hanswer, accepted_of_ok hanswer]
      rwa [List.append_assoc] at hrest
    · rw [hanswer, accepted_of_error hanswer]
      exact ih h hg

/-- **A graph that has answered several calls agrees with those** among them that it has
accepted. -/
theorem answers (h : g.Keeps past) (hw : 0 < w) (calls : List (Call (Signed w))) :
    (g.answers calls).2.Keeps (past ++ g.accepted calls) :=
  answers_induction hw (fun h hc _ => h.answer hw hc) h h calls

end Keeps

end Graph

end MinCut
