import MinCut.Proofs.Arena.Building
import MinCut.Proofs.Arena.Search

/-!
# Other amounts in the same records

Calls, events and records hold amounts among other things, and each can be told again with
all its amounts changed by a function (`Call.map`, `Event.map`, `Arena.map`). Two of them that
become equal when their amounts are changed, by one function here and by another one
there, differ in nothing else.

This is how amounts of machine words are compared in integers. An arena is a multiple of
another one (`Arena.Multiple`) if all else is the same and each of its amounts is as many
times the other's, with nothing lost to the range of the words. The words themselves can be
multiplied too (`Signed.times`), and where the products fit nothing is lost.
-/

namespace MinCut

variable {α β : Type}

/-! ## Changing amounts -/

/-- An edge with its amounts changed. -/
def Edge.map (f : α → β) (e : Edge α) : Edge β :=
  { e with capacity := f e.capacity, reverse := f e.reverse }

/-- A call with its amounts changed. -/
def Call.map (f : α → β) : Call α → Call β
  | addNodes count => addNodes count
  | addTerminal node sink source => addTerminal node (f sink) (f source)
  | addEdge edge => addEdge (edge.map f)
  | solve => solve
  | flow => flow
  | side node => side node
  | sides => sides
  | sourceCut => sourceCut
  | stats => stats
  | nodeCount => nodeCount
  | arcCount => arcCount
  | snapshot => snapshot

/-- An event with its amounts changed. -/
def Event.map (f : α → β) : Event α → Event β
  | started nodes arcs => started nodes arcs
  | augmented amount arc tail head => augmented (f amount) arc tail head
  | expelled node => expelled node
  | finished flow stats => finished (f flow) stats

/-- The record of a node with its amount changed. -/
def NodeState.map (f : α → β) (s : NodeState α) : NodeState β := { s with excess := f s.excess }

/-- The record of an arc with its amount changed. -/
def ArcState.map (f : α → β) (s : ArcState α) : ArcState β := { s with residual := f s.residual }

/-- **An arena with all its amounts changed.** -/
def Arena.map (f : α → β) (s : Arena α) : Arena β :=
  { s with
    nodes := s.nodes.map (·.map f)
    arcs := s.arcs.map (·.map f)
    flow := f s.flow
    total := f s.total
    events := s.events.map (·.map f) }

/-- Amounts that are changed twice are changed by the composition. -/
theorem Event.map_map {γ : Type} (f : α → β) (g : β → γ) (e : Event α) :
    (e.map f).map g = e.map (g ∘ f) := by
  cases e <;> rfl

/-- Amounts that are left as they are. -/
theorem Event.map_id (e : Event α) : e.map id = e := by
  cases e <;> rfl

/-! ## Multiples -/

variable {w : Nat}

namespace Signed

/-- The word of a multiple. -/
def times (c : Int) (x : Signed w) : Signed w := ofInt (c * x.toInt)

/-- **A multiple is exact** if the multiple of a larger amount fits. -/
theorem toInt_times {c y : Int} {x : Signed w} (hw : 0 < w) (hc : 0 < c) (hx : 0 ≤ x.toInt)
    (hle : x.toInt ≤ y) (hfit : c * y ≤ maxValue w) : (times c x).toInt = c * x.toInt := by
  have hnonneg : 0 ≤ c * x.toInt := Int.mul_nonneg hc.le hx
  have hmul : c * x.toInt ≤ maxValue w := (Int.mul_le_mul_of_nonneg_left hle hc.le).trans hfit
  have hmin := minValue_eq w
  exact toInt_ofInt hw (by omega) hmul

end Signed

/-- **An arena is a multiple of another one**: it holds as many times each amount, in
integers, and the same otherwise. -/
def Arena.Multiple (c : Int) (s s' : Arena (Signed w)) : Prop :=
  s'.map Signed.toInt = s.map fun x => c * x.toInt

/-- An arena after its search has ended. -/
def Arena.finish (s : Arena α) : Arena α :=
  { s with isSolved := true, events := .finished s.flow s.stats :: s.events }

/-- The end of a search is told of the changed amounts. -/
theorem Arena.map_finish (f : α → β) (s : Arena α) : s.finish.map f = (s.map f).finish := rfl

/-- Arenas stay multiples when their searches end. -/
theorem Arena.Multiple.finish {c : Int} {s s' : Arena (Signed w)} (h : s.Multiple c s') :
    s.finish.Multiple c s'.finish := by
  unfold Multiple
  rw [map_finish, map_finish, h]

/-- Events with exact multiples of the amounts are events with the words of the multiples. -/
theorem eq_map_times {c : Int} {events events' : List (Event (Signed w))} (hw : 0 < w)
    (h : events'.map (Event.map Signed.toInt) = events.map (Event.map fun x => c * x.toInt)) :
    events' = events.map (Event.map (Signed.times c)) := by
  -- a word can be read back from its integer, so nothing is lost by comparing integers
  have hread : Event.map Signed.ofInt ∘ Event.map Signed.toInt
      = (id : Event (Signed w) → Event (Signed w)) := funext fun e => by
    rw [Function.comp_apply, Event.map_map,
      show Signed.ofInt ∘ Signed.toInt = (id : Signed w → Signed w) from
        funext (Signed.ofInt_toInt hw), Event.map_id]
    rfl
  have hwords := congrArg (List.map (Event.map (Signed.ofInt (w := w)))) h
  rw [List.map_map, List.map_map, hread, List.map_id] at hwords
  exact hwords.trans (List.map_congr_left fun e _ => Event.map_map _ _ e)

end MinCut
