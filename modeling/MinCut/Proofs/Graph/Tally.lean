import MinCut.Proofs.Graph.Acceptance
import Mathlib.Logic.Equiv.Finset

/-!
# What calls add up to

The value of a cut does not need the calls one by one. It is enough to know how much
capacity they give each node at either terminal and how much they lay from each node to
each other one (`cutValue_eq`). So histories that add up to the same give every cut the
same value, and so do histories that add up to the same with the nodes renamed, if the
cut is renamed with them (`Matches.cutValue_map`). Where the two sides are exchanged, a cut
has the value of its complement (`Opposes.cutValue_compl`).

What a cut crosses is an edge between two different nodes, so that edges from a node to
itself count for nothing, and the sums do not show in which order the calls came, how they
divide an amount between them and from which end they write an edge (`Reworded.matches`).
-/

namespace MinCut

open Finset

variable {w : Nat} {past past' past'' : List (Call (Signed w))} {c : Call (Signed w)}

/-! ## Sums

A cut is worth what is given to its nodes across it and what is laid from its nodes to others. Both
are sums over the accepted calls, and the value of a cut depends on nothing else. -/

/-- What a call gives a node at the terminal of a side. -/
def Call.given (side : Side) (v : Nat) : Call (Signed w) → Int
  | addTerminal node sink source =>
    if node = v then
      match side with
      | .source => source.toInt
      | .sink => sink.toInt
    else 0
  | _ => 0

/-- What a call lays from one node to another: the capacity of an edge that leads there,
and the reverse capacity of one that leads back. -/
def Call.laid (u v : Nat) : Call (Signed w) → Int
  | addEdge edge =>
    (if edge.tail = u ∧ edge.head = v then edge.capacity.toInt else 0)
      + (if edge.head = u ∧ edge.tail = v then edge.reverse.toInt else 0)
  | _ => 0

/-- **What the calls give a node** at the terminal of a side. -/
def givenTo (past : List (Call (Signed w))) (side : Side) (v : Nat) : Int :=
  (past.map (Call.given side v)).sum

/-- **What they lay from one node to another.** -/
def laidBetween (past : List (Call (Signed w))) (u v : Nat) : Int :=
  (past.map (Call.laid u v)).sum

/-- The nodes that a call needs. -/
def Call.ends : Call (Signed w) → List Nat
  | addTerminal node _ _ => [node]
  | addEdge edge => [edge.tail, edge.head]
  | _ => []

/-- **Calls that name no other nodes** than they add. -/
def Grounded (past : List (Call (Signed w))) : Prop :=
  ∀ c ∈ past, ∀ v ∈ c.ends, v < nodesAdded past

/-- The terminal to which a node leads across a cut. -/
def acrossSide (X : Finset Nat) (v : Nat) : Side := if v ∈ X then .sink else .source

/-- Capacity toward the terminals adds to a cut what it gives across it. -/
theorem Call.weight_addTerminal {N node : Nat} (hnode : node < N) (sink source : Signed w)
    (X : Finset Nat) : (addTerminal node sink source).weight X
      = ∑ v ∈ range N, (addTerminal node sink source).given (acrossSide X v) v := by
  have hgiven (v : Nat) : (addTerminal node sink source).given (acrossSide X v) v
      = if node = v then (if node ∈ X then sink.toInt else source.toInt) else 0 := by
    show (if node = v then _ else _) = _
    by_cases h : node = v
    · subst h
      rw [if_pos rfl, if_pos rfl]
      unfold acrossSide
      by_cases hX : node ∈ X
      · rw [if_pos hX, if_pos hX]
      · rw [if_neg hX, if_neg hX]
    · rw [if_neg h, if_neg h]
  rw [sum_congr rfl fun v _ => hgiven v, sum_ite_eq, if_pos (mem_range.2 hnode)]
  rfl

/-- What is laid between one pair of nodes only counts if a cut crosses this pair. -/
theorem sum_crossing_single {N a b : Nat} (ha : a < N) (hb : b < N) (x : Int) (X : Finset Nat) :
    ∑ u ∈ range N, ∑ v ∈ range N,
        (if u ∈ X ∧ v ∉ X then (if a = u ∧ b = v then x else 0) else 0)
      = if a ∈ X ∧ b ∉ X then x else 0 := by
  rw [sum_eq_single_of_mem a (mem_range.2 ha) fun u _ hu => ?_,
    sum_eq_single_of_mem b (mem_range.2 hb) fun v _ hv => ?_]
  · simp
  · simp [Ne.symm hv]
  · exact sum_eq_zero fun v _ => by simp [Ne.symm hu]

/-- An edge adds to a cut what it lays out of it, one way and the other. -/
theorem Call.weight_addEdge {N : Nat} {edge : Edge (Signed w)} (htail : edge.tail < N)
    (hhead : edge.head < N) (X : Finset Nat) : (addEdge edge).weight X
      = ∑ u ∈ range N, ∑ v ∈ range N,
        if u ∈ X ∧ v ∉ X then (addEdge edge).laid u v else 0 := by
  have hsplit (u v : Nat) : (if u ∈ X ∧ v ∉ X then (addEdge edge).laid u v else 0)
      = (if u ∈ X ∧ v ∉ X then
          (if edge.tail = u ∧ edge.head = v then edge.capacity.toInt else 0) else 0)
        + if u ∈ X ∧ v ∉ X then
          (if edge.head = u ∧ edge.tail = v then edge.reverse.toInt else 0) else 0 := by
    unfold laid
    split <;> simp
  simp only [hsplit, sum_add_distrib]
  rw [sum_crossing_single htail hhead, sum_crossing_single hhead htail]
  show edge.across X = _
  unfold Edge.across
  by_cases ht : edge.tail ∈ X <;> by_cases hh : edge.head ∈ X <;> simp [ht, hh]

/-- **What a call adds to a cut** is what it gives across it and what it lays out of it. -/
theorem Call.weight_eq {N : Nat} (hc : ∀ v ∈ c.ends, v < N) (X : Finset Nat) :
    c.weight X = ∑ v ∈ range N, c.given (acrossSide X v) v
      + ∑ u ∈ range N, ∑ v ∈ range N, if u ∈ X ∧ v ∉ X then c.laid u v else 0 := by
  cases c with
  | addTerminal node sink source =>
    rw [weight_addTerminal (hc node (List.mem_singleton_self node))]
    simp [laid]
  | addEdge edge =>
    rw [weight_addEdge (hc _ List.mem_cons_self)
      (hc _ (List.mem_cons_of_mem _ (List.mem_singleton_self _)))]
    simp [given]
  | _ => simp [weight, given, laid]

/-- **The value of a cut** is what is given across it and what is laid out of it. -/
theorem cutValue_eq {N : Nat} (hpast : ∀ c ∈ past, ∀ v ∈ c.ends, v < N) (X : Finset Nat) :
    cutValue past X = ∑ v ∈ range N, givenTo past (acrossSide X v) v
      + ∑ u ∈ range N, ∑ v ∈ range N, if u ∈ X ∧ v ∉ X then laidBetween past u v else 0 := by
  induction past with
  | nil => simp [cutValue, givenTo, laidBetween]
  | cons c past ih =>
    have hcons : cutValue (c :: past) X = c.weight X + cutValue past X := List.sum_cons
    have hgiven (v : Nat) : givenTo (c :: past) (acrossSide X v) v
        = c.given (acrossSide X v) v + givenTo past (acrossSide X v) v := List.sum_cons
    have hlaid (u v : Nat) : (if u ∈ X ∧ v ∉ X then laidBetween (c :: past) u v else 0)
        = (if u ∈ X ∧ v ∉ X then c.laid u v else 0)
          + if u ∈ X ∧ v ∉ X then laidBetween past u v else 0 := by
      have : laidBetween (c :: past) u v = c.laid u v + laidBetween past u v := List.sum_cons
      rw [this]
      split <;> simp
    rw [hcons, ih fun d hd => hpast d (List.mem_cons_of_mem c hd),
      Call.weight_eq (hpast c List.mem_cons_self)]
    simp only [hgiven, hlaid, sum_add_distrib]
    ring

/-! ## Renaming the nodes

Two histories match if the sums of one are those of the other under new names. A cut has the value
that the renamed cut has, since its sum has the same terms in another order. -/

/-- **Two histories add up to the same, with the nodes renamed.** An edge from a node to
itself does not count. -/
structure Matches (σ : Equiv.Perm Nat) (past past' : List (Call (Signed w))) : Prop where
  /-- They add as many nodes. -/
  nodesAdded_eq : nodesAdded past' = nodesAdded past
  /-- The new names are those of the nodes. -/
  lt_iff (v : Nat) : σ v < nodesAdded past ↔ v < nodesAdded past
  /-- Each node is given the same at either terminal. -/
  givenTo_eq (side : Side) {v : Nat} : v < nodesAdded past →
    givenTo past' side (σ v) = givenTo past side v
  /-- As much is laid between any two of them. -/
  laidBetween_eq {u v : Nat} : u < nodesAdded past → v < nodesAdded past → u ≠ v →
    laidBetween past' (σ u) (σ v) = laidBetween past u v

namespace Matches

variable {σ : Equiv.Perm Nat}

/-- The first history adds up to the same as the second, with the old names. -/
theorem symm (h : Matches σ past past') : Matches σ.symm past' past := by
  have hlt (v : Nat) : σ.symm v < nodesAdded past ↔ v < nodesAdded past := by
    have := h.lt_iff (σ.symm v)
    rw [Equiv.apply_symm_apply] at this
    exact this.symm
  refine ⟨h.nodesAdded_eq.symm, fun v => ?_, fun side v hv => ?_, fun {u v} hu hv huv => ?_⟩
  · rw [h.nodesAdded_eq]
    exact hlt v
  · rw [h.nodesAdded_eq] at hv
    have := h.givenTo_eq side ((hlt v).2 hv)
    rw [Equiv.apply_symm_apply] at this
    exact this.symm
  · rw [h.nodesAdded_eq] at hu hv
    have := h.laidBetween_eq ((hlt u).2 hu) ((hlt v).2 hv) fun he => huv (σ.symm.injective he)
    rw [Equiv.apply_symm_apply, Equiv.apply_symm_apply] at this
    exact this.symm

/-- Histories that add up to the same as a third one. -/
theorem trans (h : Matches (Equiv.refl Nat) past past')
    (h' : Matches (Equiv.refl Nat) past' past'') : Matches (Equiv.refl Nat) past past'' := by
  have hn := h.nodesAdded_eq
  refine ⟨h'.nodesAdded_eq.trans hn, fun _ => Iff.rfl, fun side v hv => ?_,
    fun {u v} hu hv huv => ?_⟩
  · exact (h'.givenTo_eq side (by rwa [hn])).trans (h.givenTo_eq side hv)
  · exact (h'.laidBetween_eq (by rwa [hn]) (by rwa [hn]) huv).trans
      (h.laidBetween_eq hu hv huv)

/-- **A renamed cut has the value of the cut.** -/
theorem cutValue_map (h : Matches σ past past')
    (hpast : Grounded past) (hpast' : Grounded past') (X : Finset Nat) :
    cutValue past' (X.map σ.toEmbedding) = cutValue past X := by
  have hmem (v : Nat) : σ v ∈ X.map σ.toEmbedding ↔ v ∈ X := by
    rw [mem_map_equiv, Equiv.symm_apply_apply]
  have hrange (v : Nat) : v ∈ range (nodesAdded past) ↔ σ v ∈ range (nodesAdded past') := by
    rw [mem_range, mem_range, h.nodesAdded_eq, h.lt_iff]
  have hside (v : Nat) : acrossSide (X.map σ.toEmbedding) (σ v) = acrossSide X v := by
    unfold acrossSide
    rw [if_congr (hmem v) rfl rfl]
  rw [cutValue_eq hpast, cutValue_eq hpast']
  congr 1
  · refine (sum_equiv σ hrange fun v hv => ?_).symm
    rw [hside, h.givenTo_eq _ (mem_range.1 hv)]
  · refine (sum_equiv σ hrange fun u hu => sum_equiv σ hrange fun v hv => ?_).symm
    have hout : (σ u ∈ X.map σ.toEmbedding ∧ σ v ∉ X.map σ.toEmbedding) ↔ u ∈ X ∧ v ∉ X :=
      and_congr (hmem u) (not_congr (hmem v))
    by_cases h' : u ∈ X ∧ v ∉ X
    · have huv : u ≠ v := by
        rintro rfl
        exact h'.2 h'.1
      rw [if_pos h', if_pos (hout.2 h'),
        h.laidBetween_eq (mem_range.1 hu) (mem_range.1 hv) huv]
    · rw [if_neg h', if_neg (mt hout.1 h')]

end Matches

/-- A call with the nodes renamed. -/
def Call.rename (σ : Equiv.Perm Nat) : Call (Signed w) → Call (Signed w)
  | addTerminal node sink source => addTerminal (σ node) sink source
  | addEdge edge => addEdge ⟨σ edge.tail, σ edge.head, edge.capacity, edge.reverse⟩
  | c => c

/-- **Calls with the nodes renamed** add up to the same. -/
theorem matches_map_rename {σ : Equiv.Perm Nat} (past : List (Call (Signed w)))
    (hσ : ∀ v, σ v < nodesAdded past ↔ v < nodesAdded past) :
    Matches σ past (past.map (Call.rename σ)) where
  nodesAdded_eq := by
    unfold nodesAdded
    rw [List.map_map]
    refine congrArg List.sum (List.map_congr_left fun c _ => ?_)
    cases c <;> rfl
  lt_iff := hσ
  givenTo_eq side v _ := by
    unfold givenTo
    rw [List.map_map]
    refine congrArg List.sum (List.map_congr_left fun c _ => ?_)
    cases c with
    | addTerminal node sink source => exact if_congr σ.apply_eq_iff_eq rfl rfl
    | _ => rfl
  laidBetween_eq {u v} _ _ _ := by
    unfold laidBetween
    rw [List.map_map]
    refine congrArg List.sum (List.map_congr_left fun c _ => ?_)
    cases c with
    | addEdge edge =>
      have hend (a b : Nat) : σ a = σ u ∧ σ b = σ v ↔ a = u ∧ b = v :=
        and_congr σ.apply_eq_iff_eq σ.apply_eq_iff_eq
      exact congrArg₂ (· + ·) (if_congr (hend _ _) rfl rfl) (if_congr (hend _ _) rfl rfl)
    | _ => rfl

/-! ## Exchanging the sides

The sums at the terminals are exchanged then, and those between nodes are turned around. A cut is
replaced by its complement. -/

/-- **Two histories add up to the same, with the sides exchanged**: what one gives at the
source the other gives at the sink, and what one lays from a node to another the other lays
back. -/
structure Opposes (past past' : List (Call (Signed w))) : Prop where
  /-- They add as many nodes. -/
  nodesAdded_eq : nodesAdded past' = nodesAdded past
  /-- What is given at one terminal is given at the other. -/
  givenTo_eq (side : Side) (v : Nat) : givenTo past' side v = givenTo past side.opposite v
  /-- What is laid one way is laid the other way. -/
  laidBetween_eq (u v : Nat) : laidBetween past' u v = laidBetween past v u

/-- Exchanging the sides again gives what there was. -/
theorem Opposes.symm (h : Opposes past past') : Opposes past' past where
  nodesAdded_eq := h.nodesAdded_eq.symm
  givenTo_eq side v := by rw [h.givenTo_eq, Side.opposite_opposite]
  laidBetween_eq u v := (h.laidBetween_eq v u).symm

/-- **The complement of a cut has its value** where the sides are exchanged. -/
theorem Opposes.cutValue_compl (h : Opposes past past')
    (hpast : Grounded past) (hpast' : Grounded past') (X : Finset Nat) :
    cutValue past' (range (nodesAdded past) \ X) = cutValue past X := by
  rw [cutValue_eq hpast, cutValue_eq hpast', h.nodesAdded_eq]
  have hmem {v : Nat} (hv : v ∈ range (nodesAdded past)) :
      v ∈ range (nodesAdded past) \ X ↔ v ∉ X := by
    rw [mem_sdiff, and_iff_right hv]
  congr 1
  · refine sum_congr rfl fun v hv => ?_
    have hside : (acrossSide (range (nodesAdded past) \ X) v).opposite = acrossSide X v := by
      unfold acrossSide
      by_cases hX : v ∈ X <;> simp [mem_range.1 hv, hX, Side.opposite]
    rw [h.givenTo_eq, hside]
  · rw [sum_comm]
    refine sum_congr rfl fun v hv => sum_congr rfl fun u hu => ?_
    rw [h.laidBetween_eq]
    refine if_congr ?_ rfl rfl
    rw [hmem hu, hmem hv, not_not, and_comm]

/-- A call with the sides exchanged. -/
def Call.exchange : Call (Signed w) → Call (Signed w)
  | addTerminal node sink source => addTerminal node source sink
  | addEdge edge => addEdge ⟨edge.tail, edge.head, edge.reverse, edge.capacity⟩
  | c => c

/-- Exchanging the sides leaves the nodes alone. -/
theorem nodesAdded_map_exchange (past : List (Call (Signed w))) :
    nodesAdded (past.map Call.exchange) = nodesAdded past := by
  unfold nodesAdded
  rw [List.map_map]
  refine congrArg List.sum (List.map_congr_left fun c _ => ?_)
  cases c <;> rfl

/-- It leaves the sum of all capacities alone. -/
theorem capacityAdded_map_exchange (past : List (Call (Signed w))) :
    capacityAdded (past.map Call.exchange) = capacityAdded past := by
  unfold capacityAdded
  rw [List.map_map]
  refine congrArg List.sum (List.map_congr_left fun c _ => ?_)
  cases c <;> first | rfl | exact add_comm _ _

/-- It leaves the stage alone. -/
theorem solvedBy_map_exchange (past : List (Call (Signed w))) :
    solvedBy (past.map Call.exchange) = solvedBy past := by
  unfold solvedBy
  rw [List.any_map]
  refine congrArg (past.any ·) (funext fun c => ?_)
  cases c <;> rfl

/-- **Calls with the sides exchanged** add up to the opposite. -/
theorem opposes_map_exchange (past : List (Call (Signed w))) :
    Opposes past (past.map Call.exchange) where
  nodesAdded_eq := nodesAdded_map_exchange past
  givenTo_eq side v := by
    unfold givenTo
    rw [List.map_map]
    refine congrArg List.sum (List.map_congr_left fun c _ => ?_)
    cases c <;> cases side <;> rfl
  laidBetween_eq u v := by
    unfold laidBetween
    rw [List.map_map]
    refine congrArg List.sum (List.map_congr_left fun c _ => ?_)
    cases c with
    | addEdge edge =>
      show (if edge.tail = u ∧ edge.head = v then _ else _)
          + (if edge.head = u ∧ edge.tail = v then _ else _)
        = (if edge.tail = v ∧ edge.head = u then _ else _)
          + (if edge.head = v ∧ edge.tail = u then _ else _)
      rw [add_comm]
      exact congrArg₂ (· + ·) (if_congr and_comm rfl rfl) (if_congr and_comm rfl rfl)
    | _ => rfl

/-! ## Saying the same in other words

Edges can be written from either end, split into parts or put together, and edges from a node to
itself can be left out. None of this changes a sum. -/

/-- **Another list of calls that says the same.** -/
inductive Reworded {w : Nat} : List (Call (Signed w)) → List (Call (Signed w)) → Prop
  /-- The calls come in another order. -/
  | order {calls calls'} (h : List.Perm calls calls') : Reworded calls calls'
  /-- The capacities of an edge are divided between two. -/
  | divideEdge {calls u v} {c c₁ c₂ r r₁ r₂ : Signed w}
      (capacity : c.toInt = c₁.toInt + c₂.toInt) (reverse : r.toInt = r₁.toInt + r₂.toInt) :
      Reworded (.addEdge ⟨u, v, c, r⟩ :: calls)
        (.addEdge ⟨u, v, c₁, r₁⟩ :: .addEdge ⟨u, v, c₂, r₂⟩ :: calls)
  /-- The capacities at a node are divided between two calls. -/
  | divideTerminal {calls v} {t t₁ t₂ s s₁ s₂ : Signed w}
      (sink : t.toInt = t₁.toInt + t₂.toInt) (source : s.toInt = s₁.toInt + s₂.toInt) :
      Reworded (.addTerminal v t s :: calls)
        (.addTerminal v t₁ s₁ :: .addTerminal v t₂ s₂ :: calls)
  /-- An edge is written from its other end. -/
  | turn {calls u v c r} :
      Reworded (.addEdge ⟨u, v, c, r⟩ :: calls) (.addEdge ⟨v, u, r, c⟩ :: calls)
  /-- There is an edge from a node to itself. -/
  | loop {calls v c r} : Reworded calls (.addEdge ⟨v, v, c, r⟩ :: calls)
  /-- There is an edge without capacity. -/
  | bare {calls u v} : Reworded calls (.addEdge ⟨u, v, 0, 0⟩ :: calls)
  | symm {calls calls'} (h : Reworded calls calls') : Reworded calls' calls
  | trans {calls calls' calls''} (h : Reworded calls calls') (h' : Reworded calls' calls'') :
      Reworded calls calls''

/-- Lists of calls that add up to the same, call for call or otherwise. -/
theorem Matches.of_eq (hnodes : nodesAdded past' = nodesAdded past)
    (hgiven : ∀ side v, givenTo past' side v = givenTo past side v)
    (hlaid : ∀ u v, u ≠ v → laidBetween past' u v = laidBetween past u v) :
    Matches (Equiv.refl Nat) past past' :=
  ⟨hnodes, fun _ => Iff.rfl, fun side v _ => hgiven side v, fun _ _ huv => hlaid _ _ huv⟩

/-- **Calls that say the same add up to the same.** -/
theorem Reworded.matches (h : Reworded past past') : Matches (Equiv.refl Nat) past past' := by
  -- over the ways in which calls can be put in other words
  induction h with
  | order h =>
    exact .of_eq (h.symm.map _).sum_eq (fun _ _ => (h.symm.map _).sum_eq)
      fun _ _ _ => (h.symm.map _).sum_eq
  | divideEdge capacity reverse =>
    refine .of_eq (Nat.zero_add _) (fun _ _ => ?_) fun a b _ => ?_
    · simp [givenTo, Call.given]
    · simp only [laidBetween, List.map_cons, List.sum_cons, Call.laid, capacity, reverse]
      split <;> split <;> omega
  | divideTerminal sink source =>
    refine .of_eq (Nat.zero_add _) (fun side a => ?_) fun a b _ => ?_
    · simp only [givenTo, List.map_cons, List.sum_cons, Call.given]
      cases side <;> simp only [sink, source] <;> split <;> omega
    · simp [laidBetween, Call.laid]
  | turn =>
    refine .of_eq rfl (fun _ _ => rfl) fun a b _ => ?_
    simp only [laidBetween, List.map_cons, List.sum_cons, Call.laid]
    rw [add_comm (ite _ _ _)]
  | loop =>
    refine .of_eq (Nat.zero_add _) (fun _ _ => Int.zero_add _) fun a b hab => ?_
    have hne (v : Nat) : ¬(v = a ∧ v = b) := fun h => hab (h.1.symm.trans h.2)
    simp [laidBetween, Call.laid, hne]
  | bare =>
    refine .of_eq (Nat.zero_add _) (fun _ _ => Int.zero_add _) fun a b _ => ?_
    simp [laidBetween, Call.laid]
  | symm _ ih => exact ih.symm
  | trans _ _ ih ih' => exact ih.trans ih'

end MinCut
