import MinCut.Call
import MinCut.Proofs.Search.Arcless
import MinCut.Proofs.Table.Cell
import MinCut.Table.Cut

/-!
# Tables as calls

Two tables say which calls to make on a graph: one for each row, unless a cell names no
node (`Table.steps`). Computing their cut comes to making these calls one after the other,
up to the first that cannot be made or is refused, then solving the graph and asking for
the nodes on the source's side (`Table.cut_eq`).

The reference reads the tables by itself: it asks for three and for four columns, and
takes the cells of a row by their place (`Table.terminalStep`, `Table.edgeStep`). What a fault
says is written out in `Table.Fault.report_eq`.

Since the cells have been tested, no call names a node that does not exist, and since the
calls come in order, none comes too late or too early: the only faults of the graph that
can turn up are those of capacities (`Table.Fault.Proper`). That leaves three ways in which
it can end (`Table.Outcome`). The tables ask for no graph, the search on their graph does not
come to its end, or there is a cut. Proofs cannot compute with floating-point numbers, so
which of them it is for given rows is told by two equivalences (`Table.exists_cut_iff`,
`Table.cut_eq_unfinished_iff`). Without edges, the search always ends
(`Table.exists_cut_of_no_edges`).
-/

namespace MinCut

/-! ## Graphs under construction

At nodes that exist, a call can be refused for its capacities only. This is what makes the fault of
a row the fault of a cell or of a capacity. -/

section Graphs

variable {α : Type} [Capacity α]

/-- A fault of capacities. -/
def Fault.OfCapacity : Fault α → Prop
  | negative _ | totalOverflow .. => True
  | _ => False

/-- What is found wrong with capacities is a fault of capacities. -/
theorem Network.ofCapacity_of_totalWith {net : Network α} {first second : α} {fault : Fault α}
    (h : net.totalWith first second = .error fault) : fault.OfCapacity := by
  unfold totalWith at h
  split at h
  · cases h
    trivial
  · split at h
    · cases h
      trivial
    · split at h
      · cases h
      · cases h
        trivial

/-- At a node that exists, only the capacities can be wrong. -/
theorem Network.addTerminal_cases (net : Network α) {v : Nat} (hv : v < net.nodeCount)
    (sink source : α) :
    (∃ net', net.addTerminal v sink source = .ok net' ∧ net'.nodeCount = net.nodeCount)
      ∨ ∃ fault, net.addTerminal v sink source = .error fault ∧ fault.OfCapacity := by
  unfold addTerminal addingTerminal
  rw [dif_pos hv]
  cases htotal : net.totalWith sink source with
  | ok total => exact .inl ⟨_, rfl, Array.size_set hv⟩
  | error fault => exact .inr ⟨_, rfl, ofCapacity_of_totalWith htotal⟩

/-- Capacities at the terminals join no nodes. -/
theorem Network.edges_of_addTerminal {net net' : Network α} {v : Nat} {sink source : α}
    (h : net.addTerminal v sink source = .ok net') : net'.edges = net.edges := by
  by_cases hv : v < net.nodeCount
  · cases htotal : net.totalWith sink source with
    | ok total =>
      obtain ⟨added, hadded, -, hedges, -⟩ := addTerminal_of_totalWith hv htotal
      cases h.symm.trans hadded
      exact hedges
    | error fault => cases h.symm.trans (addTerminal_of_error hv htotal)
  · cases h.symm.trans (addTerminal_of_not_lt hv sink source)

/-- Between nodes that exist, only the capacities can be wrong. -/
theorem Network.addEdge_cases (net : Network α) {edge : Edge α}
    (htail : edge.tail < net.nodeCount) (hhead : edge.head < net.nodeCount) :
    (∃ net', net.addEdge edge = .ok net' ∧ net'.nodeCount = net.nodeCount)
      ∨ ∃ fault, net.addEdge edge = .error fault ∧ fault.OfCapacity := by
  unfold addEdge
  rw [dif_pos htail, dif_pos hhead]
  cases htotal : net.totalWith edge.capacity edge.reverse with
  | ok total => exact .inl ⟨_, rfl, rfl⟩
  | error fault => exact .inr ⟨_, rfl, ofCapacity_of_totalWith htotal⟩

namespace Graph

/-- A graph under construction, with so many nodes. -/
def IsBuilding (count : Nat) (g : Graph α) : Prop :=
  ∃ net : Network α, g = building net ∧ net.nodeCount = count

omit [Capacity α] in
/-- The nodes on the source's side are those that are there when asked for one by one. -/
theorem sourceCut_solved (net : Network α) (final : Search α net.nodeCount net.edgeCount) :
    (solved net final).sourceCut = .ok ((List.range net.nodeCount).filter fun v =>
      ((solved net final).side v).toOption = some .source) := by
  unfold sourceCut
  dsimp only
  rw [← List.map_coe_finRange_eq_range, List.filter_map]
  congr 2
  refine List.filter_congr fun v _ => decide_eq_decide.2 ?_
  show _ ↔ (Except.toOption (if h : v.val < net.nodeCount then _ else _)) = _
  rw [dif_pos v.isLt]
  show final.forest.side? v = _ ↔ some ((final.forest.side? v).getD .sink) = _
  rcases final.forest.side? v with _ | _ | _ <;> simp

end Graph

end Graphs

namespace Table

/-! ## The reference

The reference turns two tables into a list of calls and makes them one after the other. The program
reads a table column by column and makes its calls in a loop over the rows. Both are compared by
rows: the loop over rows that have been read is the list of calls of the rows. -/

/-- The node that a cell should name, or the fault if it names none. -/
def nodeAt (count : Nat) (column : Column) (row : Nat) (cell : Float) : Except Fault Nat :=
  match nodeOf? count cell with
  | some v => .ok v
  | none => .error (.index column cell row count)

/-- The rows of a table, if it has so many columns. -/
def rows? (width : Nat) (t : Table) : Option (List (Vector Float width)) :=
  if h : t.width = width then some (h ▸ t.rows) else none

/-- **The call that a row of the terminal table asks for.** Its columns are the node, the capacity
from the node to the sink, and the capacity from the source to the node. -/
def terminalStep (count : Nat) : Vector Float 3 × Nat → Except Fault (Call Float)
  | (cells, row) => do
    let v ← nodeAt count .node row cells[0]
    return .addTerminal v cells[1] cells[2]

/-- **The call that a row of the edge table asks for.** Its columns are the node where the edge
starts, the node to which it leads, its capacity, and its capacity the other way. -/
def edgeStep (count : Nat) : Vector Float 4 × Nat → Except Fault (Call Float)
  | (cells, row) => do
    let tail ← nodeAt count .tail row cells[0]
    let head ← nodeAt count .head row cells[1]
    return .addEdge ⟨tail, head, cells[2], cells[3]⟩

/-- **The calls that two tables ask for**, with the rows counted from one. -/
def steps (count : Nat) (terminals : List (Vector Float 3)) (edges : List (Vector Float 4)) :
    List (Except Fault (Call Float)) :=
  .ok (.addNodes count) :: ((terminals.zipIdx 1).map (terminalStep count)
    ++ (edges.zipIdx 1).map (edgeStep count))

/-- Makes calls one after the other, up to the first that fails. -/
def perform (g : Graph Float) : List (Except Fault (Call Float)) → Except Fault (Graph Float)
  | [] => .ok g
  | step :: steps => do
    let c ← step
    let (_, g) ← ofGraph (g.call c)
    perform g steps

/-- **The graph that two tables ask for**: after a look at the widths, first that of the terminal
table, all their calls are made. -/
def described (count : Nat) (terminals edges : Table) : Except Fault (Graph Float) :=
  match terminals.rows? 3, edges.rows? 4 with
  | none, _ => .error (.terminalWidth terminals.width)
  | some _, none => .error (.edgeWidth edges.width)
  | some terminals, some edges => perform .empty (steps count terminals edges)

/-- **The cut that they ask for**: the graph is solved, and the nodes it reports are counted
from one. -/
def reference (count : Nat) (terminals edges : Table) : Except Fault Cut := do
  let g ← described count terminals edges
  let solution ← ofGraph g.solve
  let nodes ← ofGraph solution.graph.sourceCut
  return ⟨count, nodes.map (· + 1), solution.flow, solution.events⟩

/-- The program looks a cell up as the reference does. -/
theorem node_eq (count : Nat) (column : Column) (row : Nat) (cell : Float) :
    node count column row cell = nodeAt count column row cell := by
  have hindex := index?_eq count cell
  unfold node nodeAt
  generalize index? count cell = index at hindex ⊢
  subst hindex
  cases nodeOf? count cell <;> rfl

/-- Calls that are made after others are made on the graph that these leave. -/
theorem perform_append (g : Graph Float) (first second : List (Except Fault (Call Float))) :
    perform g (first ++ second) = perform g first >>= (perform · second) := by
  induction first generalizing g with
  | nil => rfl
  | cons step first ih =>
    cases step with
    | error fault => rfl
    | ok c =>
      show (ofGraph (g.call c) >>= fun r => perform r.2 (first ++ second))
        = (ofGraph (g.call c) >>= fun r => perform r.2 first) >>= (perform · second)
      rw [bind_assoc]
      exact congrArg _ (funext fun r => ih r.2)

/-- A loop over rows makes the calls that the rows ask for. -/
theorem foldlM_eq_perform {ρ : Type} {step : ρ → Except Fault (Call Float)}
    {add : Graph Float → ρ → Except Fault (Graph Float)}
    (hadd : ∀ g row, add g row = (do return (← ofGraph (g.call (← step row))).2))
    (g : Graph Float) (rows : List ρ) : rows.foldlM add g = perform g (rows.map step) := by
  induction rows generalizing g with
  | nil => rfl
  | cons row rows ih =>
    rw [List.foldlM_cons, List.map_cons, perform, hadd]
    simp only [bind_assoc, pure_bind, ih]

/-- A row of the terminal table is added by its call. -/
theorem addTerminalRow_eq (count : Nat) (g : Graph Float) (row : Vector Float 3 × Nat) :
    addTerminalRow count g (⟨row.1[0], row.1[1], row.1[2]⟩, row.2)
      = (do return (← ofGraph (g.call (← terminalStep count row))).2) := by
  obtain ⟨cells, number⟩ := row
  unfold addTerminalRow terminalStep
  rw [node_eq]
  dsimp only
  cases nodeAt count .node number cells[0] with
  | error fault => rfl
  | ok v =>
    show ofGraph (g.addTerminal v _ _)
      = ofGraph ((Answer.done, ·) <$> g.addTerminal v _ _) >>= fun r => pure r.2
    cases g.addTerminal v cells[1] cells[2] <;> rfl

/-- A row of the edge table is added by its call. -/
theorem addEdgeRow_eq (count : Nat) (g : Graph Float) (row : Vector Float 4 × Nat) :
    addEdgeRow count g (⟨row.1[0], row.1[1], row.1[2], row.1[3]⟩, row.2)
      = (do return (← ofGraph (g.call (← edgeStep count row))).2) := by
  obtain ⟨cells, number⟩ := row
  unfold addEdgeRow edgeStep
  rw [node_eq, node_eq]
  dsimp only
  cases nodeAt count .tail number cells[0] with
  | error fault => rfl
  | ok tail =>
    cases nodeAt count .head number cells[1] with
    | error fault => rfl
    | ok head =>
      show ofGraph (g.addEdge ⟨tail, head, _, _⟩)
        = ofGraph ((Answer.done, ·) <$> g.addEdge ⟨tail, head, _, _⟩) >>= fun r => pure r.2
      cases g.addEdge ⟨tail, head, cells[2], cells[3]⟩ <;> rfl

/-- **A terminal table is read column by column**, if it has three of them. -/
theorem terminalRows_eq (t : Table) : t.terminalRows = match t.rows? 3 with
    | some rows => .ok (rows.map fun cells => ⟨cells[0], cells[1], cells[2]⟩)
    | none => .error (.terminalWidth t.width) := by
  obtain ⟨width, rows⟩ := t
  by_cases h : width = 3
  · subst h
    rfl
  · rw [terminalRows, rows?, dif_neg h, dif_neg h]

/-- **An edge table is read column by column**, if it has four of them. -/
theorem edgeRows_eq (t : Table) : t.edgeRows = match t.rows? 4 with
    | some rows => .ok (rows.map fun cells => ⟨cells[0], cells[1], cells[2], cells[3]⟩)
    | none => .error (.edgeWidth t.width) := by
  obtain ⟨width, rows⟩ := t
  by_cases h : width = 4
  · subst h
    rfl
  · rw [edgeRows, rows?, dif_neg h, dif_neg h]

/-- Rows that have been read are numbered like those of the table. -/
theorem foldlM_zipIdx_map {ρ τ : Type} (read : ρ → τ) (rows : List ρ) (first : Nat)
    (add : Graph Float → τ × Nat → Except Fault (Graph Float)) (g : Graph Float) :
    ((rows.map read).zipIdx first).foldlM add g
      = (rows.zipIdx first).foldlM (fun g row => add g (read row.1, row.2)) g := by
  rw [List.zipIdx_map, List.foldlM_map]
  rfl

/-- **The graph that two tables describe** is what their calls build. -/
theorem graph_eq (count : Nat) (terminals edges : Table) :
    graph count terminals edges = described count terminals edges := by
  unfold graph described
  rw [terminalRows_eq, edgeRows_eq]
  cases terminals.rows? 3 with
  | none => rfl
  | some ts =>
    cases edges.rows? 4 with
    | none => rfl
    | some es =>
      show (((ts.map _).zipIdx 1).foldlM (addTerminalRow count) _
        >>= fun g => ((es.map _).zipIdx 1).foldlM (addEdgeRow count) g) = _
      simp only [foldlM_zipIdx_map, foldlM_eq_perform (addTerminalRow_eq count),
        foldlM_eq_perform (addEdgeRow_eq count)]
      exact (perform_append _ _ _).symm

/-! ## The faults that can turn up

Not every fault of a graph can come of a table. The graph is under construction when its calls are
made, and the nodes of a call exist since its cells name nodes of the graph. What is left are faults
of widths, indices and capacities, and each has its report. -/

/-- **A fault that tables can have**: a width, an index or a capacity. -/
def Fault.Proper : Fault → Prop
  | graph fault => fault.OfCapacity
  | _ => True

/-- **What is told of a fault**, word by word. A cell is told with its column, its value, its table
and its row, and with the nodes that it could have named. -/
theorem Fault.report_eq (fault : Fault) : fault.report = match fault with
    | terminalWidth width => .invalidInput
      ("terminal weight table needs 3 columns (node, sink, source), got " ++ width.repr)
    | edgeWidth width => .invalidInput
      ("edge weight table needs 4 columns (from, to, capacity, reverse_capacity), got "
        ++ width.repr)
    | index .node value row count => .invalidInput
      ("node index " ++ Decimal.Layout.plain.text .double (readDouble value)
        ++ " out of bounds in terminal weight table row " ++ row.repr
        ++ " (expected 1..=" ++ count.repr ++ ")")
    | index .tail value row count => .invalidInput
      ("from index " ++ Decimal.Layout.plain.text .double (readDouble value)
        ++ " out of bounds in edge weight table row " ++ row.repr
        ++ " (expected 1..=" ++ count.repr ++ ")")
    | index .head value row count => .invalidInput
      ("to index " ++ Decimal.Layout.plain.text .double (readDouble value)
        ++ " out of bounds in edge weight table row " ++ row.repr
        ++ " (expected 1..=" ++ count.repr ++ ")")
    | graph (.negative capacity) => .invalidCapacity
      (Capacity.text capacity ++ " is not a non-negative number")
    | graph (.totalOverflow first second total) => .invalidCapacity
      (Capacity.text first ++ " + " ++ Capacity.text second
        ++ " overflows the graph's capacity total " ++ Capacity.text total)
    | graph fault => fault.report := by
  -- the reference has the texts in one piece, and the program puts them together
  have hterminal : " out of bounds in terminal weight table row "
      = " out of bounds in " ++ ("terminal weight" ++ " table row ") := rfl
  have hedge : " out of bounds in edge weight table row "
      = " out of bounds in " ++ ("edge weight" ++ " table row ") := rfl
  cases fault with
  | index column value row count =>
    cases column <;>
    · simp only [report, Column.text, Column.tableText, hterminal, hedge, String.append_assoc]
      rfl
  | graph fault => cases fault <;> rfl
  | _ => rfl

/-- A result with a property, or a fault that tables can have. -/
def Within {β : Type} (P : β → Prop) : Except Fault β → Prop
  | .ok b => P b
  | .error fault => fault.Proper

/-- A result with a property is handed on, and a fault stays what it is. -/
theorem Within.bind {β γ : Type} {P : β → Prop} {Q : γ → Prop} {result : Except Fault β}
    {next : β → Except Fault γ} (h : Within P result) (hnext : ∀ b, P b → Within Q (next b)) :
    Within Q (result >>= next) := by
  cases result with
  | ok b => exact hnext b h
  | error fault => exact h

/-- A call that adds something at nodes that exist. -/
def Adds (count : Nat) : Call Float → Prop
  | .addTerminal v _ _ => v < count
  | .addEdge edge => edge.tail < count ∧ edge.head < count
  | _ => False

/-- A cell names a node of the graph. -/
theorem within_nodeAt (count : Nat) (column : Column) (row : Nat) (cell : Float) :
    Within (· < count) (nodeAt count column row cell) := by
  unfold nodeAt
  cases h : nodeOf? count cell with
  | some v => exact nodeOf?_lt h
  | none => trivial

/-- A row of the terminal table asks for something at a node of the graph. -/
theorem within_terminalStep (count : Nat) (row : Vector Float 3 × Nat) :
    Within (Adds count) (terminalStep count row) :=
  (within_nodeAt count .node row.2 row.1[0]).bind fun _ hv => hv

/-- A row of the edge table asks for something between nodes of the graph. -/
theorem within_edgeStep (count : Nat) (row : Vector Float 4 × Nat) :
    Within (Adds count) (edgeStep count row) :=
  (within_nodeAt count .tail row.2 row.1[0]).bind fun _ ht =>
    (within_nodeAt count .head row.2 row.1[1]).bind fun _ hh => ⟨ht, hh⟩

/-- A call that adds something at nodes that exist is only refused for its capacities. -/
theorem within_call {count : Nat} {g : Graph Float} {c : Call Float} (hg : g.IsBuilding count)
    (hc : Adds count c) : Within (fun r => r.2.IsBuilding count) (ofGraph (g.call c)) := by
  obtain ⟨net, rfl, rfl⟩ := hg
  cases c with
  | addTerminal v sink source =>
    show Within _ (ofGraph ((Answer.done, ·) <$> (Graph.building <$> net.addTerminal v _ _)))
    obtain ⟨net', hok, hcount⟩ | ⟨fault, herror, hfault⟩ := net.addTerminal_cases hc sink source
    · rw [hok]
      exact ⟨net', rfl, hcount⟩
    · rw [herror]
      exact hfault
  | addEdge edge =>
    show Within _ (ofGraph ((Answer.done, ·) <$> (Graph.building <$> net.addEdge edge)))
    obtain ⟨net', hok, hcount⟩ | ⟨fault, herror, hfault⟩ := net.addEdge_cases hc.1 hc.2
    · rw [hok]
      exact ⟨net', rfl, hcount⟩
    · rw [herror]
      exact hfault
  | _ => exact hc.elim

/-- **Making calls that add something** at nodes that exist. -/
theorem within_perform {count : Nat} {g : Graph Float} {steps : List (Except Fault (Call Float))}
    (hg : g.IsBuilding count) (hsteps : ∀ step ∈ steps, Within (Adds count) step) :
    Within (Graph.IsBuilding count) (perform g steps) := by
  induction steps generalizing g with
  | nil => exact hg
  | cons step steps ih =>
    exact (hsteps step List.mem_cons_self).bind fun c hc => (within_call hg hc).bind fun r hr =>
      ih hr fun step hstep => hsteps step (List.mem_cons_of_mem _ hstep)

/-- **The graph that two tables ask for** has the nodes it should have. -/
theorem within_described (count : Nat) (terminals edges : Table) :
    Within (Graph.IsBuilding count) (described count terminals edges) := by
  unfold described
  split
  · trivial
  · trivial
  · refine within_perform (g := .building (Network.empty.addNodes count)) ⟨_, rfl, ?_⟩
      fun step hstep => ?_
    · show (#[] ++ Array.replicate count (0 : Float)).size = count
      simp
    · rcases List.mem_append.1 hstep with hstep | hstep
      · obtain ⟨row, _, rfl⟩ := List.mem_map.1 hstep
        exact within_terminalStep count row
      · obtain ⟨row, _, rfl⟩ := List.mem_map.1 hstep
        exact within_edgeStep count row

/-! ## The nodes of the cut

The program asks for the side of one node after the other and lists those on the source's side,
counted from one. None of the questions is refused, since the graph has been solved and the nodes
exist. -/

/-- **Asking for the side of one node after the other**, none of which is refused. -/
theorem foldlM_noteSource {g : Graph Float} (nodes : List Nat)
    (hnodes : ∀ v ∈ nodes, ∃ side, g.side v = .ok side) (noted : Array Nat) :
    nodes.foldlM (noteSource g) noted = .ok (noted ++
      ((nodes.filter fun v => (g.side v).toOption = some .source).map (· + 1)).toArray) := by
  induction nodes generalizing noted with
  | nil => simp [pure, Except.pure]
  | cons v nodes ih =>
    obtain ⟨side, hside⟩ := hnodes v List.mem_cons_self
    have hstep : noteSource g noted v
        = .ok (if side = .source then noted.push (v + 1) else noted) := by
      unfold noteSource
      rw [hside]
      rfl
    have hrest := ih fun u hu => hnodes u (List.mem_cons_of_mem _ hu)
    rw [List.foldlM_cons, hstep, List.filter_cons, hside]
    show nodes.foldlM (noteSource g) (if side = .source then _ else _) = _
    rw [hrest]
    cases side <;> simp [Except.toOption]

/-- **Computing a cut comes to making the calls** that the tables ask for. -/
theorem cut_eq (count : Nat) (terminals edges : Table) :
    cut count terminals edges = reference count terminals edges := by
  have hwithin := within_described count terminals edges
  unfold cut reference
  rw [graph_eq]
  cases hgraph : described count terminals edges with
  | error fault => rfl
  | ok g =>
    rw [hgraph] at hwithin
    obtain ⟨net, rfl, rfl⟩ := hwithin
    show (ofGraph (Graph.building net).solve >>= _) = ofGraph (Graph.building net).solve >>= _
    cases hsearch : net.search with
    | some final =>
      obtain ⟨solution, hsolve, hsolved, -⟩ := Graph.solve_building hsearch
      have hside (v : Nat) (hv : v ∈ List.range net.nodeCount) :
          ∃ side, (Graph.solved net final).side v = .ok side :=
        ⟨_, dif_pos (List.mem_range.1 hv)⟩
      rw [hsolve]
      show ((List.range net.nodeCount).foldlM (noteSource solution.graph) #[] >>= _)
        = ofGraph solution.graph.sourceCut >>= _
      rw [hsolved, Graph.sourceCut_solved, foldlM_noteSource _ hside]
      simp [ofGraph, Except.mapError, bind, Except.bind]
    | none =>
      rw [Graph.solve_of_search_eq_none hsearch]
      rfl

/-- **What a cut shows of a solved graph.** -/
structure Cut.Shows (count : Nat) (solution : Solution Float) (c : Cut) : Prop where
  /-- The flow is that of the solution. -/
  flow_eq : c.flow = solution.flow
  /-- The nodes are those that the graph lists. -/
  nodes_eq : ∃ nodes, solution.graph.sourceCut = .ok nodes ∧ c.nodes = nodes.map (· + 1)
  /-- The nodes are in order. -/
  pairwise_lt : c.nodes.Pairwise (· < ·)
  /-- They are counted from one. -/
  mem_range {v : Nat} : v ∈ c.nodes → 1 ≤ v ∧ v ≤ count
  /-- They are those on the source's side. -/
  mem_nodes_iff {v : Nat} : 1 ≤ v → (v ∈ c.nodes ↔ solution.graph.side (v - 1) = .ok .source)

/-- The cut of a solved graph shows it. -/
theorem shows_of_solved {net : Network Float} {final : Search Float net.nodeCount net.edgeCount}
    {solution : Solution Float} (hsolved : solution.graph = .solved net final) :
    ∃ nodes, solution.graph.sourceCut = .ok nodes ∧ Cut.Shows net.nodeCount solution
      ⟨net.nodeCount, nodes.map (· + 1), solution.flow, solution.events⟩ := by
  have hcut := Graph.sourceCut_solved net final
  -- the nodes that are listed are those of which the side is told to be that of the source
  have hmem {v : Nat} : v ∈ (List.range net.nodeCount).filter
      (fun v => ((Graph.solved net final).side v).toOption = some .source)
      ↔ v < net.nodeCount ∧ (Graph.solved net final).side v = .ok .source := by
    rw [List.mem_filter, List.mem_range, decide_eq_true_eq]
    cases (Graph.solved net final).side v <;> simp [Except.toOption]
  have hlt {v : Nat} (hside : (Graph.solved net final).side v = .ok .source) :
      v < net.nodeCount := by
    by_contra hv
    rw [Graph.side, dif_neg hv] at hside
    cases hside
  rw [← hsolved] at hcut hmem hlt
  exact ⟨_, hcut, {
    flow_eq := rfl
    nodes_eq := ⟨_, hcut, rfl⟩
    pairwise_lt := (List.pairwise_lt_range.filter _).map _ fun _ _ => Nat.succ_lt_succ
    mem_range := fun {v} hv => by
      obtain ⟨u, hu, rfl⟩ := List.mem_map.1 hv
      have hle := (hmem.1 hu).1
      omega
    mem_nodes_iff := fun {v} hv => by
      obtain ⟨u, rfl⟩ : ∃ u, v = u + 1 := ⟨v - 1, by omega⟩
      rw [Nat.add_sub_cancel, List.mem_map_of_injective Nat.succ_injective, hmem,
        and_iff_right_iff_imp]
      exact hlt }⟩

/-! ## What comes of two tables

A search over floating-point amounts is stopped when it has taken as many turns as it could take
over exact ones (`Residual.turns`). Such amounts are rounded, so that what an augmentation
takes away may not be missing afterwards, and a search could go on for ever. It is for a search that
goes on that `.unfinished` stands: it is no answer to a caller, but the lack of one. -/

/-- **What comes of two tables.** -/
inductive Outcome (count : Nat) (terminals edges : Table) : Except Fault Cut → Prop
  /-- They ask for no graph. -/
  | refused {fault : Fault} (described_eq : described count terminals edges = .error fault)
      (proper : fault.Proper) : Outcome count terminals edges (.error fault)
  /-- The search on their graph has used up its turns. -/
  | unfinished {net : Network Float}
      (described_eq : described count terminals edges = .ok (.building net))
      (search_eq : net.search = none) : Outcome count terminals edges (.error (.graph .unfinished))
  /-- Their graph is solved, and the cut shows it. -/
  | solved {net : Network Float} {final : Search Float net.nodeCount net.edgeCount}
      {solution : Solution Float} {c : Cut}
      (described_eq : described count terminals edges = .ok (.building net))
      (search_eq : net.search = some final)
      (solve_eq : (Graph.building net).solve = .ok solution) (shows : c.Shows count solution) :
      Outcome count terminals edges (.ok c)

/-- **There are no other ways for it to end.** A graph that two tables ask for has no other faults
than theirs, and whether it can be solved is a matter of the search. -/
theorem outcome_reference (count : Nat) (terminals edges : Table) :
    Outcome count terminals edges (reference count terminals edges) := by
  have hwithin := within_described count terminals edges
  unfold reference
  cases hgraph : described count terminals edges with
  | error fault =>
    rw [hgraph] at hwithin
    exact .refused hgraph hwithin
  | ok g =>
    rw [hgraph] at hwithin
    obtain ⟨net, rfl, rfl⟩ := hwithin
    show Outcome _ _ _ (ofGraph (Graph.building net).solve >>= _)
    cases hsearch : net.search with
    | some final =>
      obtain ⟨solution, hsolve, hsolved, -⟩ := Graph.solve_building hsearch
      obtain ⟨nodes, hcut, hshows⟩ := shows_of_solved hsolved
      rw [hsolve]
      show Outcome _ _ _ (ofGraph solution.graph.sourceCut >>= _)
      rw [hcut]
      exact .solved hgraph hsearch hsolve hshows
    | none =>
      rw [Graph.solve_of_search_eq_none hsearch]
      exact .unfinished hgraph hsearch

/-- **When two tables have a cut**: they ask for a graph, and the search on it ends. -/
theorem exists_cut_iff {count : Nat} {terminals edges : Table} :
    (∃ c, cut count terminals edges = .ok c) ↔ ∃ net final,
      described count terminals edges = .ok (.building net) ∧ net.search = some final := by
  have houtcome := outcome_reference count terminals edges
  rw [cut_eq]
  constructor
  · rintro ⟨c, hc⟩
    rw [hc] at houtcome
    cases houtcome with
    | solved hgraph hsearch => exact ⟨_, _, hgraph, hsearch⟩
  · rintro ⟨net, final, hgraph, hsearch⟩
    generalize reference count terminals edges = result at houtcome ⊢
    cases houtcome with
    | refused herror => cases hgraph.symm.trans herror
    | unfinished hgraph' hnone =>
      cases hgraph.symm.trans hgraph'
      cases hsearch.symm.trans hnone
    | solved => exact ⟨_, rfl⟩

/-- **When they have none because of the search**: it has used up its turns. -/
theorem cut_eq_unfinished_iff {count : Nat} {terminals edges : Table} :
    cut count terminals edges = .error (.graph .unfinished) ↔ ∃ net,
      described count terminals edges = .ok (.building net) ∧ net.search = none := by
  have houtcome := outcome_reference count terminals edges
  rw [cut_eq]
  constructor
  · intro h
    rw [h] at houtcome
    cases houtcome with
    | refused _ hproper => exact hproper.elim
    | unfinished hgraph hsearch => exact ⟨_, hgraph, hsearch⟩
  · rintro ⟨net, hgraph, hsearch⟩
    generalize reference count terminals edges = result at houtcome ⊢
    cases houtcome with
    | refused herror => cases hgraph.symm.trans herror
    | unfinished => rfl
    | solved hgraph' hsome =>
      cases hgraph.symm.trans hgraph'
      cases hsearch.symm.trans hsome

/-- The rows of a terminal table join no nodes. -/
theorem edgeCount_of_perform {count : Nat} {rows : List (Vector Float 3 × Nat)}
    {net net' : Network Float}
    (h : perform (.building net) (rows.map (terminalStep count)) = .ok (.building net')) :
    net'.edgeCount = net.edgeCount := by
  induction rows generalizing net with
  | nil =>
    cases h
    rfl
  | cons row rows ih =>
    rw [List.map_cons, perform, terminalStep] at h
    cases hnode : nodeAt count .node row.2 row.1[0] with
    | error fault =>
      rw [hnode] at h
      cases h
    | ok v =>
      rw [hnode] at h
      change (ofGraph ((Answer.done, ·) <$> (Graph.building <$> net.addTerminal v _ _))
        >>= fun r => perform r.2 _) = _ at h
      cases hadd : net.addTerminal v row.1[1] row.1[2] with
      | error fault =>
        rw [hadd] at h
        cases h
      | ok added =>
        rw [hadd] at h
        exact (ih h).trans (congrArg Array.size (Network.edges_of_addTerminal hadd))

/-- **Where there are no edges**, tables that ask for a graph have a cut, whatever their capacities
are. -/
theorem exists_cut_of_no_edges {count : Nat} {terminals edges : Table} {g : Graph Float}
    (hedges : edges.rows? 4 = some []) (hg : described count terminals edges = .ok g) :
    ∃ c, cut count terminals edges = .ok c := by
  have hwithin := within_described count terminals edges
  rw [hg] at hwithin
  obtain ⟨net, rfl, -⟩ := hwithin
  suffices hnone : net.edgeCount = 0 by
    obtain ⟨final, hfinal⟩ := Network.exists_search_of_no_edges hnone
    exact exists_cut_iff.2 ⟨net, final, hg, hfinal⟩
  rw [described, hedges] at hg
  cases hrows : terminals.rows? 3 with
  | none =>
    rw [hrows] at hg
    cases hg
  | some rows =>
    rw [hrows] at hg
    change perform (.building (Network.empty.addNodes count))
      ((rows.zipIdx 1).map (terminalStep count) ++ []) = _ at hg
    rw [List.append_nil] at hg
    exact edgeCount_of_perform hg

/-- Tables without rows have a cut, for any number of nodes. -/
example (count : Nat) : ∃ c, cut count ⟨3, []⟩ ⟨4, []⟩ = .ok c :=
  exists_cut_of_no_edges rfl rfl

end Table

end MinCut
