import MinCut.Proofs.Arena.Shape
import MinCut.Proofs.Graph.Safety

/-!
# How the arcs are arranged

Each edge makes two arcs, which get the next two numbers and are each other's sisters. The
first leads to the head of the edge and the second to its tail. A node lists the arcs that
leave it in the order of their numbers, and none is missing (`Arena.Arranged`). Everything
else about them follows: where an arc starts, that the sister of a sister is the arc itself,
and that every arc into a node has its sister in the list of the node (`Arena.Coherent`).

Nothing but a new edge adds an arc, and nothing moves one. So the arcs are arranged in this way
after every history of calls, and at all times while the search is executed
(`Graph.answers_arranged`).

The proof is an induction on the calls that have been accepted, with `Arena.Arranged` as the
invariant. A call that adds an edge has its effect on the arcs described by `Arena.Joins`, without
reference to the capacities, and `Arena.Arranged.concat` adds the edge to the list. All other calls,
and whatever is executed of a search, keep the shape of the arena (`Arena.SameShape`), and the
arrangement depends on nothing but the shape (`Arena.Arranged.of_sameShape`).
-/

namespace MinCut

variable {α β : Type}

/-- The edge that a call adds. -/
def Call.edge? : Call α → Option (Edge α)
  | addEdge edge => some edge
  | _ => none

/-- **The edges that calls add**, in their order. -/
def edgesAdded (past : List (Call α)) : List (Edge α) := past.filterMap Call.edge?

/-- Calls that are made after others add their edges after those of the others. -/
theorem edgesAdded_append (past later : List (Call α)) :
    edgesAdded (past ++ later) = edgesAdded past ++ edgesAdded later := List.filterMap_append

/-- A further call adds its edge at the end, if it adds one. -/
theorem edgesAdded_concat (past : List (Call α)) (c : Call α) :
    edgesAdded (past ++ [c]) = edgesAdded past ++ c.edge?.toList := by
  rw [edgesAdded_append]
  cases c <;> rfl

namespace Arena

/-- The arcs that leave a node. -/
def out (s : Arena α) (v : Nat) : Option (List Nat) := (s.node v).map NodeState.arcs

/-- **An arena whose arcs are arranged by edges**, two for each. -/
structure Arranged (edges : List (Edge α)) (s : Arena α) : Prop where
  /-- There are two arcs for each edge. -/
  length_arcs : s.arcs.length = 2 * edges.length
  /-- The first arc of an edge leads to its head. -/
  head_forward {k : Nat} (hk : k < edges.length) : s.head (2 * k) = some edges[k].head
  /-- The second one leads to its tail. -/
  head_backward {k : Nat} (hk : k < edges.length) : s.head (2 * k + 1) = some edges[k].tail
  /-- The second arc of an edge is the sister of the first. -/
  sister_forward {k : Nat} (hk : k < edges.length) : s.sister (2 * k) = some (2 * k + 1)
  /-- The first one is the sister of the second. -/
  sister_backward {k : Nat} (hk : k < edges.length) : s.sister (2 * k + 1) = some (2 * k)
  /-- All arcs lead to nodes. -/
  head_lt {a v : Nat} : s.head a = some v → v < s.nodes.length
  /-- A node lists the arcs that start there, by their numbers. -/
  out_eq {v : Nat} (hv : v < s.nodes.length) :
    s.out v = some ((List.range s.arcs.length).filter fun a => s.tail a = some v)

/-- **What follows** of an arena whose arcs are arranged by edges. -/
structure Coherent (edges : List (Edge α)) (s : Arena α) : Prop where
  /-- The first arc of an edge starts at its tail. -/
  tail_forward {k : Nat} (hk : k < edges.length) : s.tail (2 * k) = some edges[k].tail
  /-- The second one starts at its head. -/
  tail_backward {k : Nat} (hk : k < edges.length) : s.tail (2 * k + 1) = some edges[k].head
  /-- Every arc has a sister. -/
  exists_sister {a : Nat} : a < s.arcs.length → ∃ b, s.sister a = some b
  /-- The sister of the sister of an arc is the arc. -/
  sister_sister {a b : Nat} : s.sister a = some b → s.sister b = some a
  /-- No arc is its own sister. -/
  sister_ne {a b : Nat} : s.sister a = some b → b ≠ a
  /-- Every node has a list of arcs. -/
  exists_out {v : Nat} : v < s.nodes.length → ∃ arcs, s.out v = some arcs
  /-- The arcs in a list are in the order of their numbers, and none is listed twice. -/
  pairwise_out {v : Nat} {arcs : List Nat} : s.out v = some arcs → arcs.Pairwise (· < ·)
  /-- A node lists exactly the arcs that start there. -/
  mem_out_iff {v a : Nat} {arcs : List Nat} : s.out v = some arcs →
    (a ∈ arcs ↔ s.tail a = some v)
  /-- The sister of an arc into a node is in the list of the node. -/
  sister_mem_out {v a b : Nat} {arcs : List Nat} : s.out v = some arcs → s.head a = some v →
    s.sister a = some b → b ∈ arcs

variable {edges : List (Edge α)} {s t : Arena α}

/-! ## Lookups

The three lookups only depend on the lists that make up the shape of an arena. So whatever is said
in terms of them carries over to arenas of the same shape. -/

/-- Where an arc leads is read off the heads of all arcs. -/
theorem head_eq (s : Arena α) (a : Nat) : s.head a = (s.arcs.map ArcState.head)[a]? := by
  rw [List.getElem?_map]
  show (s.arcs[a]?).bind _ = _
  cases s.arcs[a]? <;> rfl

/-- The sister of an arc is read off the sisters of all arcs. -/
theorem sister_eq (s : Arena α) (a : Nat) : s.sister a = (s.arcs.map ArcState.sister)[a]? := by
  rw [List.getElem?_map]
  show (s.arcs[a]?).bind _ = _
  cases s.arcs[a]? <;> rfl

/-- The arcs that leave a node are read off the lists of all nodes. -/
theorem out_eq_getElem? (s : Arena α) (v : Nat) : s.out v = (s.nodes.map NodeState.arcs)[v]? :=
  List.getElem?_map.symm

/-- An arc with a sister exists. -/
theorem lt_of_sister {a b : Nat} (h : s.sister a = some b) : a < s.arcs.length := by
  rw [sister_eq] at h
  simpa using (List.getElem?_eq_some_iff.1 h).1

/-- A node with a list of arcs exists. -/
theorem lt_of_out {v : Nat} {arcs : List Nat} (h : s.out v = some arcs) : v < s.nodes.length := by
  rw [out_eq_getElem?] at h
  simpa using (List.getElem?_eq_some_iff.1 h).1

/-- Arenas of the same shape are arranged alike. -/
theorem Arranged.of_sameShape (h : s.Arranged edges) (hst : s.SameShape t) :
    t.Arranged edges := by
  have hnodes : t.nodes.length = s.nodes.length := by
    simpa using congrArg List.length hst.leaving_eq
  have harcs : t.arcs.length = s.arcs.length := by
    simpa using congrArg List.length hst.heads_eq
  have hhead : t.head = s.head := funext fun a => by rw [head_eq, head_eq, hst.heads_eq]
  have hsister : t.sister = s.sister := funext fun a => by
    rw [sister_eq, sister_eq, hst.sisters_eq]
  have htail : t.tail = s.tail := funext fun a => by
    unfold tail
    rw [hsister, hhead]
  have hout : t.out = s.out := funext fun v => by
    rw [out_eq_getElem?, out_eq_getElem?, hst.leaving_eq]
  -- all that is said of the arcs is said of lookups that give the same in both arenas
  constructor
  · exact harcs.trans h.length_arcs
  · exact fun hk => hhead ▸ h.head_forward hk
  · exact fun hk => hhead ▸ h.head_backward hk
  · exact fun hk => hsister ▸ h.sister_forward hk
  · exact fun hk => hsister ▸ h.sister_backward hk
  · rw [hhead, hnodes]
    exact h.head_lt
  · rw [hout, hnodes, harcs, htail]
    exact h.out_eq

/-! ## Coherence

An arc of an arranged arena is the first or the second one of an edge, and every property of arcs
can be proved by looking at the two. -/

namespace Arranged

/-- An arc is the first or the second one of an edge. -/
theorem cases_arc (h : s.Arranged edges) {a : Nat} (ha : a < s.arcs.length) :
    ∃ k < edges.length, a = 2 * k ∨ a = 2 * k + 1 := by
  rw [h.length_arcs] at ha
  exact ⟨a / 2, by omega, by omega⟩

/-- The first arc of an edge starts where the second leads to. -/
theorem tail_forward (h : s.Arranged edges) {k : Nat} (hk : k < edges.length) :
    s.tail (2 * k) = some edges[k].tail := by
  unfold tail
  rw [h.sister_forward hk]
  exact h.head_backward hk

/-- The second one starts where the first leads to. -/
theorem tail_backward (h : s.Arranged edges) {k : Nat} (hk : k < edges.length) :
    s.tail (2 * k + 1) = some edges[k].head := by
  unfold tail
  rw [h.sister_backward hk]
  exact h.head_forward hk

/-- The sister of the sister of an arc is the arc. -/
theorem sister_sister (h : s.Arranged edges) {a b : Nat} (hab : s.sister a = some b) :
    s.sister b = some a := by
  obtain ⟨k, hk, rfl | rfl⟩ := h.cases_arc (lt_of_sister hab)
  · rw [h.sister_forward hk] at hab
    cases hab
    exact h.sister_backward hk
  · rw [h.sister_backward hk] at hab
    cases hab
    exact h.sister_forward hk

/-- No arc is its own sister, since their numbers differ by one. -/
theorem sister_ne (h : s.Arranged edges) {a b : Nat} (hab : s.sister a = some b) : b ≠ a := by
  obtain ⟨k, hk, rfl | rfl⟩ := h.cases_arc (lt_of_sister hab)
  · rw [h.sister_forward hk] at hab
    cases hab
    exact Nat.succ_ne_self _
  · rw [h.sister_backward hk] at hab
    cases hab
    exact (Nat.succ_ne_self _).symm

/-- The list of a node has the arcs that start there, in the order of their numbers. -/
theorem eq_of_out (h : s.Arranged edges) {v : Nat} {arcs : List Nat} (hv : s.out v = some arcs) :
    arcs = (List.range s.arcs.length).filter fun a => s.tail a = some v :=
  Option.some.inj (hv.symm.trans (h.out_eq (lt_of_out hv)))

/-- A node lists exactly the arcs that start there. -/
theorem mem_out_iff (h : s.Arranged edges) {v a : Nat} {arcs : List Nat}
    (hv : s.out v = some arcs) : a ∈ arcs ↔ s.tail a = some v := by
  rw [h.eq_of_out hv, List.mem_filter, List.mem_range, decide_eq_true_iff, and_iff_right_iff_imp]
  intro ha
  obtain ⟨b, hb, -⟩ := Option.bind_eq_some_iff.1 ha
  exact lt_of_sister hb

/-- **An arranged arena is coherent.** -/
theorem coherent (h : s.Arranged edges) : s.Coherent edges where
  tail_forward := h.tail_forward
  tail_backward := h.tail_backward
  exists_sister ha := by
    obtain ⟨k, hk, rfl | rfl⟩ := h.cases_arc ha
    · exact ⟨_, h.sister_forward hk⟩
    · exact ⟨_, h.sister_backward hk⟩
  sister_sister := h.sister_sister
  sister_ne := h.sister_ne
  exists_out hv := ⟨_, h.out_eq hv⟩
  pairwise_out hv := by
    rw [h.eq_of_out hv]
    exact List.pairwise_lt_range.filter _
  mem_out_iff := h.mem_out_iff
  sister_mem_out {v a b arcs} hv ha hab := by
    rw [h.mem_out_iff hv, tail, h.sister_sister hab]
    exact ha

/-! ## Building

New nodes have no arcs. A new edge has the next two numbers, and for every lookup there is a lemma
for the old arcs and one for each of the two new ones. -/

/-- Arcs start at nodes. -/
theorem tail_lt (h : s.Arranged edges) {a v : Nat} (ha : s.tail a = some v) :
    v < s.nodes.length := by
  obtain ⟨b, _, hb⟩ := Option.bind_eq_some_iff.1 ha
  exact h.head_lt hb

/-- **Nodes are added without arcs.** -/
theorem addNodes [Capacity α] (h : s.Arranged edges) {count first : Nat}
    (hok : s.perform (Arena.addNodes count) = some (.ok first, t)) : t.Arranged edges := by
  obtain ⟨_, _, hok⟩ := ensureBuilding_readsOnly.bind_eq_ok hok
  cases hok
  refine ⟨h.length_arcs, h.head_forward, h.head_backward, h.sister_forward, h.sister_backward,
    fun ha => ?_, fun {v} hv => ?_⟩
  · rw [List.length_append]
    exact Nat.lt_add_right _ (h.head_lt ha)
  · rw [List.length_append, List.length_replicate] at hv
    rw [out_eq_getElem?, List.map_append, List.map_replicate]
    by_cases hold : v < s.nodes.length
    · rw [List.getElem?_append_left (by rwa [List.length_map]), ← out_eq_getElem?]
      exact h.out_eq hold
    · -- no arc starts at a node that was not there
      have hnone : ((List.range s.arcs.length).filter fun a => s.tail a = some v) = [] :=
        List.filter_eq_nil_iff.2 fun a _ ha => hold (h.tail_lt (of_decide_eq_true ha))
      show _ = some ((List.range s.arcs.length).filter fun a => s.tail a = some v)
      rw [hnone, List.getElem?_append_right (by rw [List.length_map]; exact not_lt.1 hold),
        List.getElem?_replicate, List.length_map, if_pos (by omega)]
      rfl

end Arranged

/-- One more arc leaves a node. -/
theorem out_addLeaving {i a : Nat} (hok : s.addLeaving i a = some t) :
    i < s.nodes.length ∧ t.nodes.length = s.nodes.length ∧ t.arcs = s.arcs
      ∧ ∀ v, t.out v = (s.out v).map (· ++ if v = i then [a] else []) := by
  obtain ⟨node, hnode, hok⟩ := Option.bind_eq_some_iff.1 hok
  cases hok
  obtain ⟨hi, rfl⟩ := List.getElem?_eq_some_iff.1 hnode
  refine ⟨hi, List.length_set, rfl, fun v => ?_⟩
  show ((s.nodes.set i _)[v]?).map NodeState.arcs = ((s.nodes[v]?).map NodeState.arcs).map _
  rw [List.getElem?_set, Option.map_map]
  by_cases hv : i = v
  · subst hv
    rw [if_pos rfl, if_pos hi, List.getElem?_eq_getElem hi]
    simp
  · simp [Ne.symm hv, hv, Function.comp_def]

/-- **What an edge changes**: there are two more arcs, and each leaves one end of it. -/
structure Joins (edge : Edge α) (s t : Arena α) : Prop where
  /-- The tail of the edge exists. -/
  tail_lt : edge.tail < s.nodes.length
  /-- So does its head. -/
  head_lt : edge.head < s.nodes.length
  /-- There are no more nodes than before. -/
  length_nodes : t.nodes.length = s.nodes.length
  /-- The first of the new arcs leads to the head of the edge, and the second to its tail. -/
  heads_eq : t.arcs.map ArcState.head = s.arcs.map ArcState.head ++ [edge.head, edge.tail]
  /-- They are each other's sisters. -/
  sisters_eq : t.arcs.map ArcState.sister
    = s.arcs.map ArcState.sister ++ [s.arcs.length + 1, s.arcs.length]
  /-- The first is listed at the tail of the edge, and the second at its head. -/
  out_eq (v : Nat) : t.out v = (s.out v).map fun arcs => arcs
    ++ (if v = edge.tail then [s.arcs.length] else [])
    ++ if v = edge.head then [s.arcs.length + 1] else []

/-- **An edge that is accepted** has this effect, whatever its capacities are. -/
theorem joins_of_addEdge [Capacity α] {edge : Edge α}
    (hok : s.perform (addEdge edge) = some (.ok (), t)) : Joins edge s t := by
  obtain ⟨total, hok⟩ := perform_addEdge_eq_ok hok
  rw [perform_join] at hok
  obtain ⟨first, hfirst, hok⟩ := Option.bind_eq_some_iff.1 hok
  obtain ⟨second, hsecond, hok⟩ := Option.bind_eq_some_iff.1 hok
  cases hok
  -- an arc is listed at the tail, and then one at the head
  obtain ⟨htail, hnodes, harcs, hout⟩ := out_addLeaving hfirst
  obtain ⟨hhead, hnodes', harcs', hout'⟩ := out_addLeaving hsecond
  rw [hnodes] at hhead hnodes'
  refine ⟨htail, hhead, hnodes', ?_, ?_, fun v => ?_⟩
  · rw [harcs', harcs, addArcs, List.map_append]
    rfl
  · rw [harcs', harcs, addArcs, List.map_append]
    rfl
  · rw [hout', hout, Option.map_map]
    rfl

namespace Joins

variable {edge : Edge α}

/-- There are two more arcs. -/
theorem length_arcs (h : Joins edge s t) : t.arcs.length = s.arcs.length + 2 := by
  simpa using congrArg List.length h.heads_eq

/-- The arcs that are there lead where they led. -/
theorem head_old (h : Joins edge s t) {a : Nat} (ha : a < s.arcs.length) :
    t.head a = s.head a := by
  rw [head_eq, head_eq, h.heads_eq, List.getElem?_append_left (by rwa [List.length_map])]

/-- They have the sisters that they had. -/
theorem sister_old (h : Joins edge s t) {a : Nat} (ha : a < s.arcs.length) :
    t.sister a = s.sister a := by
  rw [sister_eq, sister_eq, h.sisters_eq, List.getElem?_append_left (by rwa [List.length_map])]

/-- The first of the two leads to the head of the edge. -/
theorem head_forward (h : Joins edge s t) : t.head s.arcs.length = some edge.head := by
  rw [head_eq, h.heads_eq]
  simp

/-- The second one leads to its tail. -/
theorem head_backward (h : Joins edge s t) : t.head (s.arcs.length + 1) = some edge.tail := by
  rw [head_eq, h.heads_eq]
  simp

/-- The second is the sister of the first. -/
theorem sister_forward (h : Joins edge s t) :
    t.sister s.arcs.length = some (s.arcs.length + 1) := by
  rw [sister_eq, h.sisters_eq]
  simp

/-- The first is the sister of the second. -/
theorem sister_backward (h : Joins edge s t) :
    t.sister (s.arcs.length + 1) = some s.arcs.length := by
  rw [sister_eq, h.sisters_eq]
  simp

/-- The first starts at the tail of the edge. -/
theorem tail_forward (h : Joins edge s t) : t.tail s.arcs.length = some edge.tail := by
  rw [tail, h.sister_forward]
  exact h.head_backward

/-- The second one starts at its head. -/
theorem tail_backward (h : Joins edge s t) : t.tail (s.arcs.length + 1) = some edge.head := by
  rw [tail, h.sister_backward]
  exact h.head_forward

end Joins

namespace Arranged

variable {edge : Edge α}

/-- What holds of all edges and of one more. -/
theorem forall_concat {P : Nat → Edge α → Prop}
    (h : ∀ {k : Nat} (hk : k < edges.length), P k edges[k]) (hlast : P edges.length edge)
    {k : Nat} (hk : k < (edges ++ [edge]).length) : P k (edges ++ [edge])[k] := by
  rw [List.length_append, List.length_singleton] at hk
  rcases Nat.lt_succ_iff_lt_or_eq.1 hk with hk' | rfl
  · rw [List.getElem_append_left hk']
    exact h hk'
  · rw [List.getElem_concat_length rfl]
    exact hlast

/-- The arcs that are there start where they started. -/
theorem tail_old (h : s.Arranged edges) (hjoins : Joins edge s t) {a : Nat}
    (ha : a < s.arcs.length) : t.tail a = s.tail a := by
  obtain ⟨b, hb⟩ := h.coherent.exists_sister ha
  unfold tail
  rw [hjoins.sister_old ha, hb]
  exact hjoins.head_old (lt_of_sister (h.sister_sister hb))

/-- All arcs still lead to nodes. -/
theorem head_lt_of_joins (h : s.Arranged edges) (hjoins : Joins edge s t) {a v : Nat}
    (ha : t.head a = some v) : v < t.nodes.length := by
  have hlt : a < s.arcs.length + 2 := by
    rw [head_eq] at ha
    simpa [hjoins.length_arcs] using (List.getElem?_eq_some_iff.1 ha).1
  rw [hjoins.length_nodes]
  by_cases hold : a < s.arcs.length
  · rw [hjoins.head_old hold] at ha
    exact h.head_lt ha
  · -- a number that is not that of an old arc is one of the two new ones
    obtain rfl | rfl : a = s.arcs.length ∨ a = s.arcs.length + 1 := by omega
    · cases hjoins.head_forward.symm.trans ha
      exact hjoins.head_lt
    · cases hjoins.head_backward.symm.trans ha
      exact hjoins.tail_lt

/-- The new numbers are the largest, so they come last in the lists. -/
theorem out_of_joins (h : s.Arranged edges) (hjoins : Joins edge s t) {v : Nat}
    (hv : v < t.nodes.length) :
    t.out v = some ((List.range t.arcs.length).filter fun a => t.tail a = some v) := by
  rw [hjoins.length_nodes] at hv
  have hold : (List.range s.arcs.length).filter (fun a => t.tail a = some v)
      = (List.range s.arcs.length).filter fun a => s.tail a = some v :=
    List.filter_congr fun a ha => by rw [h.tail_old hjoins (List.mem_range.1 ha)]
  rw [hjoins.out_eq, h.out_eq hv, hjoins.length_arcs, List.range_succ, List.range_succ,
    List.filter_append, List.filter_append, hold]
  simp [hjoins.tail_forward, hjoins.tail_backward, List.filter_cons, eq_comm]

/-- **An edge makes the next two arcs**, and the arcs that are there stay as they are. -/
theorem concat (h : s.Arranged edges) (hjoins : Joins edge s t) :
    t.Arranged (edges ++ [edge]) := by
  have hlength : s.arcs.length = 2 * edges.length := h.length_arcs
  have hforward {k : Nat} (hk : k < edges.length) : 2 * k < s.arcs.length := by omega
  have hbackward {k : Nat} (hk : k < edges.length) : 2 * k + 1 < s.arcs.length := by omega
  -- what is said of the edges is known of the old ones, and is read off the new arcs for the last
  refine ⟨?_, forall_concat (P := fun k e => t.head (2 * k) = some e.head) ?_ ?_,
    forall_concat (P := fun k e => t.head (2 * k + 1) = some e.tail) ?_ ?_,
    forall_concat (P := fun k _ => t.sister (2 * k) = some (2 * k + 1)) ?_ ?_,
    forall_concat (P := fun k _ => t.sister (2 * k + 1) = some (2 * k)) ?_ ?_,
    h.head_lt_of_joins hjoins, h.out_of_joins hjoins⟩
  · rw [hjoins.length_arcs, hlength, List.length_append]
    exact (Nat.mul_add 2 _ 1).symm
  · exact fun hk => (hjoins.head_old (hforward hk)).trans (h.head_forward hk)
  · exact hlength ▸ hjoins.head_forward
  · exact fun hk => (hjoins.head_old (hbackward hk)).trans (h.head_backward hk)
  · exact hlength ▸ hjoins.head_backward
  · exact fun hk => (hjoins.sister_old (hforward hk)).trans (h.sister_forward hk)
  · exact hlength ▸ hjoins.sister_forward
  · exact fun hk => (hjoins.sister_old (hbackward hk)).trans (h.sister_backward hk)
  · exact hlength ▸ hjoins.sister_backward

end Arranged

/-! ## Calls

Among the calls only one adds an edge. The theorem about histories is an induction on the calls that
a graph accepts, in which each of them is carried out on the arena of the graph. -/

section Calls

variable [Capacity α] {c : Call α} {a : Answer α}

/-- Giving a node capacity keeps the shape. -/
theorem addTerminal_sameShape {i : Nat} {sink source : α}
    (hok : s.perform (addTerminal i sink source) = some (.ok (), t)) : s.SameShape t := by
  obtain ⟨total, hok⟩ := perform_addTerminal_eq_ok hok
  rw [perform_credit] at hok
  obtain ⟨node, _, hok⟩ := Option.bind_eq_some_iff.1 hok
  obtain ⟨written, hwritten, hok⟩ := Option.bind_eq_some_iff.1 hok
  cases hok
  have hkept : Arena.SameShape { s with total } written :=
    updateNode_keeps (fun _ => by rfl) { s with total } i written hwritten
  exact ⟨hkept.leaving_eq, hkept.heads_eq, hkept.sisters_eq⟩

/-- **A call that adds no arcs** leaves the arcs of every node as they are. -/
theorem Arranged.call_of_edge? (h : s.Arranged edges) (hc : c.edge? = none)
    (hok : s.perform (call c) = some (.ok a, t)) : t.Arranged edges := by
  cases c with
  | addNodes count =>
    obtain ⟨first, added, hadd, hok⟩ := perform_bind_eq_ok hok
    cases hok
    exact h.addNodes hadd
  | addTerminal node sink source =>
    obtain ⟨_, credited, hcredit, hok⟩ := perform_bind_eq_ok hok
    cases hok
    exact h.of_sameShape (addTerminal_sameShape hcredit)
  | addEdge edge => cases hc
  | solve =>
    obtain ⟨flow, solved, hsolve, hok⟩ := perform_bind_eq_ok hok
    cases hok
    exact h.of_sameShape (solve_keeps s _ hsolve)
  | _ =>
    cases call_readsOnly rfl hok
    exact h

/-- **A call that is carried out** keeps the arcs arranged, with its edge if it adds one. -/
theorem Arranged.answer (h : s.Arranged edges)
    (hok : s.answer c = some (.ok a, t)) : t.Arranged (edges ++ c.edge?.toList) := by
  cases c with
  | addEdge edge =>
    obtain ⟨_, joined, hjoin, hok⟩ := perform_bind_eq_ok hok
    cases hok
    exact h.concat (joins_of_addEdge hjoin)
  | _ =>
    rw [show Call.edge? _ = none from rfl, Option.toList_none, List.append_nil]
    exact h.call_of_edge? rfl hok

/-- Without nodes there are no arcs to be arranged. -/
theorem arranged_empty : (empty : Arena α).Arranged [] where
  length_arcs := rfl
  head_forward hk := absurd hk (Nat.not_lt_zero _)
  head_backward hk := absurd hk (Nat.not_lt_zero _)
  sister_forward hk := absurd hk (Nat.not_lt_zero _)
  sister_backward hk := absurd hk (Nat.not_lt_zero _)
  head_lt h := by
    rw [head_eq] at h
    cases h
  out_eq hv := absurd hv (Nat.not_lt_zero _)

/-- **An arena that stays arranged**, whatever is executed on it of solving a graph. -/
structure StaysArranged (edges : List (Edge α)) (s : Arena α) : Prop where
  /-- The arcs are arranged by the edges. -/
  arranged : s.Arranged edges
  /-- What follows of such an arena holds. -/
  coherent : s.Coherent edges
  /-- Solving changes nothing about the arcs, whether it is refused or not. -/
  solve : ∀ result t, s.perform Arena.solve = some (result, t) → s.SameShape t
  /-- Nor does any function that is executed on the way. -/
  executes : ∀ t, Relation.ReflTransGen Executes s t →
    s.SameShape t ∧ t.Arranged edges ∧ t.Coherent edges

/-- An arena that is arranged stays arranged, since the search keeps its shape. -/
theorem Arranged.stays (h : s.Arranged edges) : s.StaysArranged edges := by
  refine ⟨h, h.coherent, fun _ _ ht => solve_keeps _ _ ht, fun t ht => ?_⟩
  have hshape := sameShape_of_executes ht
  exact ⟨hshape, h.of_sameShape hshape, (h.of_sameShape hshape).coherent⟩

end Calls

end Arena

namespace Graph

variable {w : Nat}

/-- The arena of a graph has its arcs arranged by the edges that have been accepted. -/
theorem arranged_accepted (hw : 0 < w) (calls : List (Call (Signed w)))
    (events : List (Event (Signed w))) :
    ((empty.answers calls).2.arena events).Arranged (edgesAdded (empty.accepted calls)) := by
  -- by induction on the calls that have been accepted, for whatever events the arena holds
  refine Keeps.answers_induction
    (motive := fun past g => ∀ events, (g.arena events).Arranged (edgesAdded past)) hw
    (fun {past g c} h hc hg events => ?_) empty_keeps (fun _ => ?_) calls events
  · obtain ⟨events', hanswer⟩ := answer_arena h hw [] c
    rw [← h.fault?_answer hw] at hc
    cases hresult : (g.answer c).1 with
    | error fault =>
      rw [hresult] at hc
      cases hc
    | ok a =>
      rw [hresult] at hanswer
      -- an accepted call does to the arena what it does to the graph
      rw [edgesAdded_concat]
      exact ((hg []).answer hanswer).of_sameShape (.of_eq rfl rfl)
  · exact Arena.arranged_empty.of_sameShape (.of_eq rfl rfl)

/-- **Calls that arrange the arcs** of an arena by the given edges. -/
def Arranges (calls : List (Call (Signed w))) (edges : List (Edge (Signed w))) : Prop :=
  ∃ s, (Arena.empty : Arena (Signed w)).answers calls = some ((empty.answers calls).1, s)
    ∧ s.StaysArranged edges

/-- **The arcs are arranged by the edges that were accepted**, after every history of calls and
whatever is executed of a search, which changes none of them. -/
theorem answers_arranged (hw : 0 < w) (calls : List (Call (Signed w))) :
    Arranges calls (edgesAdded (empty.accepted calls)) := by
  obtain ⟨events, hanswers⟩ := answers_arena empty_keeps hw [] calls
  exact ⟨_, hanswers, (arranged_accepted hw calls events).stays⟩

/-- Solving adds no edges, whether it is accepted or not. -/
theorem edgesAdded_accepted_solve {α : Type} [Capacity α] (g : Graph α) :
    edgesAdded (g.accepted [.solve]) = [] := by
  rw [accepted]
  split <;> rfl

/-- Calls that join two nodes twice, each way once, and the second of them with itself. One edge
more is refused, and the graph is solved. -/
def knot : List (Call (Signed 8)) :=
  [.addNodes 1, .addEdge ⟨0, 1, .ofInt 1, 0⟩, .addNodes 1, .addTerminal 0 0 (.ofInt 3),
    .addEdge ⟨0, 1, .ofInt 1, 0⟩, .addTerminal 1 (.ofInt 3) 0, .addEdge ⟨1, 0, 0, .ofInt 1⟩,
    .addEdge ⟨1, 1, .ofInt 1, .ofInt 1⟩, .solve]

/-- Two nodes with edges that are parallel and one that is a loop. -/
theorem answers_arranged_knot : 0 < 8
    ∧ Arranges knot [⟨0, 1, .ofInt 1, 0⟩, ⟨1, 0, 0, .ofInt 1⟩, ⟨1, 1, .ofInt 1, .ofInt 1⟩] := by
  have hw : 0 < 8 := by decide
  have hedges : edgesAdded (empty.accepted knot)
      = [⟨0, 1, .ofInt 1, 0⟩, ⟨1, 0, 0, .ofInt 1⟩, ⟨1, 1, .ofInt 1, .ofInt 1⟩] := by
    rw [show knot = knot.take 8 ++ [.solve] from rfl, accepted_append, edgesAdded_append,
      edgesAdded_accepted_solve]
    rfl
  rw [← hedges]
  exact ⟨hw, answers_arranged hw knot⟩

end Graph

end MinCut
