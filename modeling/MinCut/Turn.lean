/-!
# Turns

The search and the adoption pass are both loops that change a state until
nothing is left to do. `Turn` is what one round of such a loop gives: a state
to go on from, or the state in which it ended. Writing the round as a function
of its own makes the states between two rounds something that can be spoken
about.
-/

namespace MinCut

/-- What a round of a loop leads to. -/
inductive Turn (σ : Type) where
  /-- There was nothing to do; the loop is over. -/
  | done (s : σ)
  /-- There may be more to do. -/
  | more (s : σ)

/-- The state after a round. -/
def Turn.state {σ : Type} : Turn σ → σ
  | done s => s
  | more s => s

end MinCut
