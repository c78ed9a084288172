import MinCut.Network.Side

/-!
# Support

The trees of the search do not look at amounts. They ask which arcs have
capacity left and which nodes have capacity left at a terminal, and `Support`
holds just these answers. Whatever is defined from a topology and a support
alone treats networks of any capacity type alike.
-/

namespace MinCut

/-- Where capacity is left in a network with `n` nodes and `m` edges. -/
structure Support (n m : Nat) where
  /-- Whether an arc has capacity left. -/
  carries : Arc m → Bool
  /-- The terminal at which a node has capacity left. -/
  terminal : Fin n → Option Side

namespace Support

variable {n m : Nat}

/-- Whether a link from child to parent can hold in the tree of a side: flow
can still run over it. -/
def live (S : Support n m) (s : Side) (link : Arc m) : Bool :=
  S.carries (s.carrier link)

/-- A link of the source tree holds by the arc that leads down to the child. -/
theorem live_source (S : Support n m) (a : Arc m) :
    S.live .source a = S.carries a.sister := rfl

/-- A link of the sink tree holds by its own arc. -/
theorem live_sink (S : Support n m) (a : Arc m) : S.live .sink a = S.carries a := rfl

end Support

end MinCut
