import MinCut.Proofs.Graph.Chronicle
import MinCut.Proofs.Graph.Safety
import MinCut.Proofs.Network.Scaling
import MinCut.Proofs.Search.Scaling

/-!
# Solving a multiple

Calls that build a graph can be made again with every capacity multiplied by the same factor.
Where the multiple of what the capacities add up to still has a word, the calls are
accepted again, since the total is all that is checked (`Graph.answers_scaled`).

Both graphs are solved in step (`Graph.solve_scaled`). Before each turn and at the end, one
is a multiple of the other, arc by arc and node by node, and nothing else about them differs:
neither the trees nor the waiting lines, nor stamps, distances and counts. So the two tell
the same story in other amounts.
-/

namespace MinCut

variable {w : Nat} {c : Int}

/-! ## Calls with multiples

A call with all its amounts multiplied is accepted where the call is, as long as the multiple of the
total has a word. The network that it builds is a multiple of the other. -/

/-- A call builds whatever its amounts are. -/
theorem Call.builds_map {α β : Type} (f : α → β) (d : Call α) : (d.map f).builds = d.builds := by
  cases d <;> rfl

namespace Graph

variable {net net' net₁ : Network (Signed w)} {d : Call (Signed w)}
  {calls : List (Call (Signed w))}

/-- A call that adds to a network is accepted exactly if the network accepts it. -/
theorem answer_adds_iff {g : Graph (Signed w)}
    {result : Except (Fault (Signed w)) (Network (Signed w))}
    (h : g.call d = (.done, ·) <$> (building <$> result)) :
    (∃ a, g.answer d = (.ok a, building net₁)) ↔ result = .ok net₁ := by
  unfold answer
  rw [h]
  cases result with
  | ok net =>
    constructor
    · rintro ⟨a, ha⟩
      exact congrArg Except.ok (building.inj (Prod.mk.inj ha).2)
    · intro hresult
      obtain rfl := Except.ok.inj hresult
      exact ⟨_, rfl⟩
  | error fault =>
    constructor
    · rintro ⟨a, ha⟩
      cases ha
    · intro hresult
      cases hresult

/-- **An accepted call that builds** adds its capacities to the total, and they are not
negative. -/
theorem total_answer (hw : 0 < w) (hb : net.Balanced) (hd : d.builds = true) {a : Answer (Signed w)}
    {g : Graph (Signed w)} (hok : (building net).answer d = (.ok a, g)) :
    ∃ net₁, g = building net₁ ∧ net₁.Balanced ∧ net₁.total.toInt = net.total.toInt + d.capacity
      ∧ 0 ≤ d.capacity := by
  obtain ⟨net₁, hanswer, hb₁, _⟩ := building_answer hb hw hd
  obtain rfl : g = building net₁ := (congrArg Prod.snd hok).symm.trans hanswer
  refine ⟨net₁, rfl, hb₁, ?_⟩
  cases d with
  | addNodes count =>
    obtain rfl := building.inj (Prod.mk.inj hok).2
    exact ⟨(add_zero _).symm, le_refl 0⟩
  | addTerminal node sink source =>
    have hresult := (answer_adds_iff rfl).1 ⟨a, hok⟩
    obtain ⟨hsink, hsource, hsum⟩ :=
      Network.totalWith_spec hw (Network.addTerminal_eq_ok hresult).2.1
    exact ⟨hsum.trans (add_assoc _ _ _), Int.add_nonneg hsink hsource⟩
  | addEdge edge =>
    have hresult := (answer_adds_iff rfl).1 ⟨a, hok⟩
    obtain ⟨hcapacity, hreverse, hsum⟩ :=
      Network.totalWith_spec hw (Network.addEdge_eq_ok hresult).1
    exact ⟨hsum.trans (add_assoc _ _ _), Int.add_nonneg hcapacity hreverse⟩
  | _ => exact absurd hd (by simp [Call.builds])

/-- **One call with multiples.** -/
theorem answer_scaled (h : net.Scaled c net') (hw : 0 < w) (hc : 0 < c) (hb : net.Balanced)
    (hb' : net'.Balanced) (hd : d.builds = true) {a : Answer (Signed w)}
    (hok : (building net).answer d = (.ok a, building net₁))
    (hfit : c * net₁.total.toInt ≤ Signed.maxValue w) :
    (d.map (Signed.times c)).map Signed.toInt = d.map (fun x => c * x.toInt)
      ∧ ∃ a' net₁', (building net').answer (d.map (Signed.times c)) = (.ok a', building net₁')
        ∧ net₁.Scaled c net₁' := by
  have htotal := hb.total_nonneg
  cases d with
  | addNodes count =>
    obtain rfl := building.inj (Prod.mk.inj hok).2
    exact ⟨rfl, _, _, rfl, h.addNodes count⟩
  | addTerminal node sink source =>
    -- the capacities are part of the total, so that their multiples have words
    have hresult := (answer_adds_iff rfl).1 ⟨a, hok⟩
    obtain ⟨hsink, hsource, hsum⟩ :=
      Network.totalWith_spec hw (Network.addTerminal_eq_ok hresult).2.1
    have hsink' := Signed.toInt_times hw hc hsink (by omega) hfit
    have hsource' := Signed.toInt_times hw hc hsource (by omega) hfit
    obtain ⟨net₁', hresult', hscaled⟩ :=
      h.addTerminal hw hc hb hb' hresult hfit hsink' hsource'
    have hok' : ∃ a', (building net').answer ((Call.addTerminal node sink source).map
        (Signed.times c)) = (.ok a', building net₁') := (answer_adds_iff rfl).2 hresult'
    exact ⟨congrArg₂ (Call.addTerminal node) hsink' hsource',
      hok'.imp fun _ hok' => ⟨net₁', hok', hscaled⟩⟩
  | addEdge edge =>
    -- so are those of an edge
    have hresult := (answer_adds_iff rfl).1 ⟨a, hok⟩
    obtain ⟨hcapacity, hreverse, hsum⟩ :=
      Network.totalWith_spec hw (Network.addEdge_eq_ok hresult).1
    have hedge : (edge.map (Signed.times c)).map Signed.toInt = edge.map fun x => c * x.toInt :=
      congrArg₂ (Edge.mk edge.tail edge.head)
        (Signed.toInt_times hw hc hcapacity (by omega) hfit)
        (Signed.toInt_times hw hc hreverse (by omega) hfit)
    obtain ⟨net₁', hresult', hscaled⟩ := h.addEdge hw hc hresult hfit hedge
    have hok' : ∃ a', (building net').answer ((Call.addEdge edge).map (Signed.times c))
        = (.ok a', building net₁') := (answer_adds_iff rfl).2 hresult'
    exact ⟨congrArg Call.addEdge hedge, hok'.imp fun _ hok' => ⟨net₁', hok', hscaled⟩⟩
  | _ => exact absurd hd (by simp [Call.builds])

/-- Accepted calls have no negative capacities. -/
theorem capacityAdded_nonneg (hw : 0 < w) (hb : net.Balanced)
    (hcalls : ∀ d ∈ calls, d.builds = true) (haccepted : (building net).accepted calls = calls) :
    0 ≤ capacityAdded calls := by
  induction calls generalizing net with
  | nil => exact le_refl 0
  | cons d calls ih =>
    obtain ⟨a, g, hok, hrest⟩ := answer_of_accepted_eq haccepted
    obtain ⟨net₁, rfl, hb₁, -, hnonneg⟩ := total_answer hw hb (hcalls d List.mem_cons_self) hok
    have hcons : capacityAdded (d :: calls) = d.capacity + capacityAdded calls := List.sum_cons
    rw [hcons]
    exact Int.add_nonneg hnonneg (ih hb₁ (fun d hd => hcalls d (List.mem_cons_of_mem _ hd)) hrest)

/-- **All calls with multiples** are accepted where all calls were, and build a multiple. -/
theorem answers_scaled (h : net.Scaled c net') (hw : 0 < w) (hc : 0 < c) (hb : net.Balanced)
    (hb' : net'.Balanced) (hcalls : ∀ d ∈ calls, d.builds = true)
    (haccepted : (building net).accepted calls = calls)
    (hfit : c * (net.total.toInt + capacityAdded calls) ≤ Signed.maxValue w) :
    (calls.map (Call.map (Signed.times c))).map (Call.map Signed.toInt)
        = calls.map (Call.map fun x => c * x.toInt)
      ∧ (building net').accepted (calls.map (Call.map (Signed.times c)))
        = calls.map (Call.map (Signed.times c))
      ∧ ∃ net₁ net₁', ((building net).answers calls).2 = building net₁
        ∧ ((building net').answers (calls.map (Call.map (Signed.times c)))).2 = building net₁'
        ∧ net₁.Scaled c net₁' := by
  -- over the calls, both graphs being answered at once
  induction calls generalizing net net' with
  | nil => exact ⟨rfl, rfl, net, net', rfl, rfl, h⟩
  | cons d calls ih =>
    have hd := hcalls d List.mem_cons_self
    have hrest := fun d hd => hcalls d (List.mem_cons_of_mem _ hd)
    obtain ⟨a, g, hok, haccepted₁⟩ := answer_of_accepted_eq haccepted
    obtain ⟨net₁, rfl, hb₁, htotal, -⟩ := total_answer hw hb hd hok
    have hcons : net.total.toInt + capacityAdded (d :: calls)
        = net₁.total.toInt + capacityAdded calls := by
      rw [htotal, add_assoc]
      rfl
    rw [hcons] at hfit
    -- the later calls only add to the total, so that it has a word so far
    have hnonneg := capacityAdded_nonneg hw hb₁ hrest haccepted₁
    have hle : c * net₁.total.toInt ≤ c * (net₁.total.toInt + capacityAdded calls) :=
      Int.mul_le_mul_of_nonneg_left (by omega) hc.le
    obtain ⟨hexact, a', net₁', hok', h₁⟩ := answer_scaled h hw hc hb hb' hd hok (hle.trans hfit)
    obtain ⟨net₂, hnet₂, hb₁', -⟩ :=
      total_answer hw hb' ((d.builds_map (Signed.times c)).trans hd) hok'
    obtain rfl := building.inj hnet₂
    obtain ⟨hexacts, haccepted', net₂, net₂', hanswers, hanswers', h₂⟩ :=
      ih h₁ hb₁ hb₁' hrest haccepted₁ hfit
    refine ⟨congrArg₂ List.cons hexact hexacts, ?_, net₂, net₂', ?_, ?_, h₂⟩
    · rw [List.map_cons, accepted_of_ok hok', haccepted']
    · rw [answers_cons, hok, hanswers]
    · rw [List.map_cons, answers_cons, hok', hanswers']

end Graph

/-! ## Searches on multiples

Both searches are laid out in arenas, and the arenas are compared at every state. That a search on a
multiple takes the same turns has been proved for forests and amounts; what is added here is that
the records, the events and the counts are the same too. -/

/-- The search sees a multiple of what it sees otherwise. -/
theorem Network.Scaled.corresponds {net net' : Network (Signed w)} (h : net.Scaled c net') :
    net.residual.Corresponds c net.topology net'.topology net'.residual where
  nodes := h.nodeCount_eq
  edges := h.edgeCount_eq
  tail {k k'} hk d := by
    have hedge := h.edge_eq hk
    cases d with
    | forward =>
      rw [Network.tail_topology_forward, Network.tail_topology_forward]
      exact congrArg (fun e : Edge Int => e.tail) hedge
    | backward =>
      have hhead : (net'.edge k').head = (net.edge k).head :=
        congrArg (fun e : Edge Int => e.head) hedge
      exact (net'.head_topology_forward k').trans
        (hhead.trans (net.head_topology_forward k).symm)
  residual {k k'} hk d := by
    have hedge := h.edge_eq hk
    cases d with
    | forward =>
      rw [Network.residual_forward, Network.residual_forward]
      exact congrArg (fun e : Edge Int => e.capacity) hedge
    | backward =>
      rw [Network.residual_backward, Network.residual_backward]
      exact congrArg (fun e : Edge Int => e.reverse) hedge
  excess {v v'} hv := by
    rw [← net.excessAt_val, ← net'.excessAt_val, hv, h.excessAt_eq]
  flow := h.flow

/-- The arena of a network when its search begins. -/
def Network.begun (net : Network (Signed w)) : Arena (Signed w) :=
  (Graph.building net).arena [.started net.nodeCount (2 * net.edgeCount)]

/-- The arena of a solved graph. -/
theorem Graph.arena_solved {net : Network (Signed w)}
    {final : Search (Signed w) net.nodeCount net.edgeCount} {solution : Solution (Signed w)}
    (hsolve : (building net).solve = .ok solution) (hsearch : net.search = some final) :
    solution.graph.arena solution.events.reverse
      = (net.begun.laySearch net.topology final).finish := by
  rw [solve_eq_ok hsearch] at hsolve
  obtain rfl := Except.ok.inj hsolve
  dsimp only
  rw [List.reverse_cons, List.reverse_reverse]
  rfl

/-- **Two graphs solved in step.** -/
structure Network.SolvedInStep (c : Int) (net net' : Network (Signed w))
    (solution solution' : Solution (Signed w)) : Prop where
  /-- The first graph is solved, -/
  solve : (Graph.building net).solve = .ok solution
  /-- and so is the second. -/
  solve' : (Graph.building net').solve = .ok solution'
  /-- Before every turn and at the end, one graph is a multiple of the other. -/
  turns : ∃ final final', solution.graph = .solved net final ∧ solution'.graph = .solved net' final'
    ∧ Loop.InStep (fun s => (Search.turn net.topology s).toSum)
      (fun s => (Search.turn net'.topology s).toSum)
      (Search.InStep c net.topology net.begun net'.topology net'.begun)
      (Search.InStep c net.topology net.begun net'.topology net'.begun)
      (.start net.residual) (.start net'.residual) final final'
  /-- So it is when they have been solved, with all that has been told. -/
  multiple : (solution.graph.arena solution.events.reverse).Multiple c
    (solution'.graph.arena solution'.events.reverse)
  /-- The flow is multiplied. -/
  flow : solution'.flow.toInt = c * solution.flow.toInt
  /-- The logs agree line for line but for the amounts. -/
  lines : solution'.events.map Event.line
    = solution.events.map fun e => (e.map (Signed.times c)).line

/-- **Networks that are multiples are solved in step.** -/
theorem Network.Scaled.solved {net net' : Network (Signed w)} (h : net.Scaled c net') (hw : 0 < w)
    (hc : 0 < c) (hb : net.Balanced) (hb' : net'.Balanced) :
    ∃ solution solution', net.SolvedInStep c net' solution solution' := by
  obtain ⟨final, hsearch, -⟩ := hb.search hw
  obtain ⟨final', hsearch', -⟩ := hb'.search hw
  obtain ⟨solution, hsolve, hgraph, hflow⟩ := Graph.solve_building hsearch
  obtain ⟨solution', hsolve', hgraph', hflow'⟩ := Graph.solve_building hsearch'
  have hstarted : net'.begun.events.map (Event.map Signed.toInt)
      = net.begun.events.map (Event.map fun x => c * x.toInt) := by
    show [Event.started net'.nodeCount (2 * net'.edgeCount)]
      = [Event.started net.nodeCount (2 * net.edgeCount)]
    rw [h.nodeCount_eq, h.edgeCount_eq]
  have htotal : net'.begun.total.toInt = c * net.begun.total.toInt := h.total
  have hsolved : net'.begun.isSolved = net.begun.isSolved := rfl
  -- the first search takes the second one along, from the states before the first turn
  obtain ⟨last, hstep⟩ := h.corresponds.inStep hw hc hb.residual hb'.residual htotal hsolved
    hstarted (Search.ends_turn hsearch)
  -- the second loop has one result only
  obtain rfl : last = final' := hstep.ends.unique (Search.ends_turn hsearch')
  have hmultiple := hstep.results.multiple.finish
  rw [← Graph.arena_solved hsolve hsearch, ← Graph.arena_solved hsolve' hsearch'] at hmultiple
  -- the logs are read off the records, which agree but for the amounts
  have hevents : solution'.events.reverse
      = solution.events.reverse.map (Event.map (Signed.times c)) :=
    eq_map_times hw (congrArg Arena.events hmultiple)
  rw [List.map_reverse, List.reverse_inj] at hevents
  refine ⟨solution, solution',
    { solve := hsolve
      solve' := hsolve'
      turns := ⟨final, last, hgraph, hgraph', hstep⟩
      multiple := hmultiple
      flow := ?_
      lines := ?_ }⟩
  · rw [hflow, hflow']
    exact congrArg (fun s => s.flow) hstep.results.multiple
  · rw [hevents, List.map_map]
    rfl

namespace Graph

/-- **Calls that are solved like their multiples.** Each capacity is multiplied without overflow,
all multiples are accepted, and the networks that both build are solved in step. -/
structure SolvedScaled (c : Int) (calls : List (Call (Signed w))) : Prop where
  /-- Each capacity is multiplied without overflow. -/
  map_toInt : (calls.map (Call.map (Signed.times c))).map (Call.map Signed.toInt)
    = calls.map (Call.map fun x => c * x.toInt)
  /-- All calls with multiples are accepted. -/
  accepted : (empty : Graph (Signed w)).accepted (calls.map (Call.map (Signed.times c)))
    = calls.map (Call.map (Signed.times c))
  /-- What both build is solved in step. -/
  builds : Builds calls fun net => Builds (calls.map (Call.map (Signed.times c))) fun net' =>
    ∃ solution solution', net.SolvedInStep c net' solution solution'

/-- **Solving a multiple takes the same turns.** The calls with every capacity multiplied are
accepted like the others, and the graphs that they build are solved in step. -/
theorem solve_scaled (hw : 0 < w) (calls : List (Call (Signed w)))
    (hcalls : ∀ d ∈ calls, d.builds = true)
    (haccepted : (empty : Graph (Signed w)).accepted calls = calls) (hc : 1 ≤ c)
    (hfit : c * capacityAdded calls ≤ Signed.maxValue w) : SolvedScaled c calls := by
  have hcalls' : ∀ d ∈ calls.map (Call.map (Signed.times c)), d.builds = true := by
    intro d hd
    obtain ⟨e, he, rfl⟩ := List.mem_map.1 hd
    exact (e.builds_map _).trans (hcalls e he)
  have hbound : c * ((Network.empty : Network (Signed w)).total.toInt + capacityAdded calls)
      ≤ Signed.maxValue w := by
    have hzero : (Network.empty : Network (Signed w)).total.toInt = 0 := Signed.toInt_zero
    rwa [hzero, zero_add]
  obtain ⟨hexact, haccepted', net, net', hanswers, hanswers', hscaled⟩ :=
    answers_scaled (Network.empty_scaled c) hw hc Network.empty_balanced Network.empty_balanced
      hcalls haccepted hbound
  obtain ⟨net₁, hnet₁, hb, -⟩ := empty_answers hw hcalls
  obtain ⟨net₁', hnet₁', hb', -⟩ := empty_answers hw hcalls'
  obtain rfl := building.inj (hnet₁.symm.trans hanswers)
  obtain rfl := building.inj (hnet₁'.symm.trans hanswers')
  exact ⟨hexact, haccepted', net₁, hanswers, net₁', hanswers', hscaled.solved hw hc hb hb'⟩

/-- Two paths, with three times the capacities. -/
theorem solve_scaled_detour : (0 < 8 ∧ (∀ d ∈ detour.take 7, d.builds = true)
      ∧ empty.accepted (detour.take 7) = detour.take 7 ∧ 1 ≤ (3 : Int)
      ∧ 3 * capacityAdded (detour.take 7) ≤ Signed.maxValue 8)
    ∧ SolvedScaled 3 (detour.take 7) := by
  have hw : 0 < 8 := by decide
  have hcalls : ∀ d ∈ detour.take 7, d.builds = true := by decide
  have haccepted : empty.accepted (detour.take 7) = detour.take 7 := rfl
  have hc : 1 ≤ (3 : Int) := by decide
  have hfit : 3 * capacityAdded (detour.take 7) ≤ Signed.maxValue 8 := by decide
  exact ⟨⟨hw, hcalls, haccepted, hc, hfit⟩,
    solve_scaled hw (detour.take 7) hcalls haccepted hc hfit⟩

end Graph

end MinCut
