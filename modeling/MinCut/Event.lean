import MinCut.Capacity.Basic

/-!
# Events

A search tells what it does: when it begins, each amount it sends, each node it
expels from a tree, and how it ended. `Event.line` writes an event as a line of
a log, its level in front.
-/

namespace MinCut

/-- What a search has done, in numbers. -/
structure Stats where
  /-- How many paths flow was sent along. -/
  augmentations : Nat
  /-- How many nodes were scanned. -/
  growthSteps : Nat
  /-- How many orphans were adopted. -/
  adopted : Nat
  /-- How many orphans were expelled. -/
  expelled : Nat
deriving DecidableEq

namespace Stats

/-- Nothing has been done. -/
def zero : Stats := ⟨0, 0, 0, 0⟩

/-- How counts are written in a log. -/
def text (s : Stats) : String :=
  "MaxflowStats \x7b augmentations: " ++ s.augmentations.repr
    ++ ", growth_steps: " ++ s.growthSteps.repr
    ++ ", orphans_adopted: " ++ s.adopted.repr
    ++ ", orphans_freed: " ++ s.expelled.repr ++ " \x7d"

end Stats

/-- Something that happens in a search. -/
inductive Event (α : Type) where
  /-- The search begins on a network of this size. -/
  | started (nodes arcs : Nat)
  /-- An amount is sent over a bridge, an arc with its number and ends. -/
  | augmented (amount : α) (arc tail head : Nat)
  /-- A node is expelled from its tree. -/
  | expelled (node : Nat)
  /-- The search ends with a flow. -/
  | finished (flow : α) (stats : Stats)
deriving DecidableEq

namespace Event

variable {α : Type}

/-- The level of an event in a log. -/
def level : Event α → String
  | started .. | finished .. => "DEBUG"
  | augmented .. | expelled .. => "TRACE"

variable [Capacity α]

/-- What a log says of an event. -/
def message : Event α → String
  | started nodes arcs => s!"maxflow start: {nodes} nodes, {arcs} arcs"
  | augmented amount arc tail head =>
    s!"augmented {Capacity.text amount} through arc {arc} ({tail} -> {head})"
  | expelled node => s!"freed orphan {node}"
  | finished flow stats => s!"maxflow done: flow {Capacity.text flow}, {stats.text}"

/-- An event as a line of a log. -/
def line (e : Event α) : String := e.level ++ " " ++ e.message

end Event

end MinCut
