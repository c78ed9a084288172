import MinCut.Call

/-!
# Sessions

A session works on several graphs, one of which is current. A graph can be
copied at any stage, and from then on the two go separate ways.
-/

namespace MinCut

/-- Graphs under work. -/
structure Session (α : Type) where
  /-- The graphs, in the order in which they came to be. -/
  graphs : Array (Graph α)
  /-- Which one calls go to. -/
  current : Fin graphs.size

/-- What can be done in a session. -/
inductive Session.Step (α : Type) where
  /-- Call the current graph. -/
  | call (c : Call α)
  /-- Copy the current graph. -/
  | copy
  /-- Make another graph current. -/
  | use (index : Nat)

namespace Session

variable {α : Type} [Capacity α]

/-- The current graph. -/
def graph (s : Session α) : Graph α := s.graphs.toVector.get s.current

/-- A session with one graph. -/
def begin (g : Graph α) : Session α := ⟨#[g], ⟨0, Nat.one_pos⟩⟩

/-- **One step of a session.** Copying gives the number of the copy; a number
that no graph has leaves the current graph current. -/
def step (s : Session α) : Step α → Except (Fault α) (Answer α) × Session α
  | .call c =>
    let (a, g) := s.graph.answer c
    (a, ⟨s.graphs.set s.current g s.current.isLt, s.current.cast (Array.size_set _).symm⟩)
  | .copy =>
    (.ok (.number s.graphs.size),
      ⟨s.graphs.push s.graph,
        s.current.castLE (by rw [Array.size_push]; exact Nat.le_succ _)⟩)
  | .use index =>
    (.ok .done, if h : index < s.graphs.size then { s with current := ⟨index, h⟩ } else s)

/-- The answers of a list of steps. -/
def steps (s : Session α) : List (Step α) → List (Except (Fault α) (Answer α))
  | [] => []
  | step :: rest =>
    let (a, s) := s.step step
    a :: s.steps rest

end Session

end MinCut
