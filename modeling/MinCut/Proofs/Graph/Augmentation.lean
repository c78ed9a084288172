import MinCut.Proofs.Graph.Termination
import MinCut.Proofs.Residual.Augmented

/-!
# What one augmentation does

A scan that ends with an arc between the two trees has found a path, though nowhere as a
list: the arc is its middle, and the links of the trees lead from either end of it to a
root. At every state of a search, augmenting it does what `Residual.Augmented` says of that
path.

The walks themselves change links while they follow them (`Residual.Augments`). They end
with just the amounts and the forest described.

The forest that the path is taken from is the one after the scan, in which the scanned node has its
flag again. A flag is no part of the links, and the path is the same without it.
-/

namespace MinCut

variable {n m w : Nat} {T : Topology n m} {total : Int} {value : Finset Nat → Int}

namespace Search

variable {s : Search (Signed w) n m} {v : Fin n} {bridge : Arc m}

/-- **The augmentation of a turn that has found a bridge.** -/
theorem Sound.augmented (h : s.Sound T total value) (hw : 0 < w) (hfinds : s.Finds T v bridge) :
    s.residual.Augmented T ((Search.scanned T v s).forest.flag v true) (s.path T v bridge)
      ((s.path T v bridge).bottleneck s.residual) (Search.turn T s).state.residual
      (s.severed T v bridge) := by
  have hf := h.found hfinds
  have hflag := hf.sound.flag hf.active_eq_false
  rw [turn_of_bridge hfinds]
  exact h.balanced.augmented hw
    ((h.moved hw hfinds).1.of_place fun u => Forest.place_flag _ v u true)
    hflag.orphans_eq_nil hflag.link?_ne_orphan

/-- **The augmentation of a turn**, if it makes one: the walks end with an amount, with what is
left and with a forest, these are as the path says, and the turn goes on with them. -/
def Augments (T : Topology n m) (s : Search (Signed w) n m) : Prop :=
  ∀ v bridge, s.Finds T v bridge →
    ∃ x r g, s.residual.Augments T ((scanned T v s).forest.flag v true) bridge (x, r, g)
      ∧ s.residual.Augmented T ((scanned T v s).forest.flag v true) (s.path T v bridge) x r g
      ∧ (s.path T v bridge).bridge = bridge
      ∧ (turn T s).state.residual = r
      ∧ (turn T s).state.forest = (g.adopt T r.support).forest

/-- A sound search makes its augmentations like that. -/
theorem Sound.augments (h : s.Sound T total value) (hw : 0 < w) : s.Augments T := by
  intro v bridge hfinds
  have hp := (h.moved hw hfinds).1.of_place fun u => Forest.place_flag _ v u true
  have hturn := congrArg Turn.state (turn_of_bridge hfinds)
  refine ⟨_, _, _, ?_, h.augmented hw hfinds, rfl, rfl, by rw [hturn]; rfl⟩
  rw [hturn]
  exact Residual.augments hp s.residual

end Search

namespace Graph

/-- **What each augmentation of a search does**: the walks of it end, with the amount sent and
with the amounts and the forest with which the adoption begins. -/
theorem search_augmented (hw : 0 < w) (calls : List (Call (Signed w)))
    (hcalls : ∀ c ∈ calls, c.builds = true) :
    Builds calls fun net => net.Throughout (Search.Augments net.topology) :=
  builds_throughout hw hcalls fun hbalanced _ hs => (hs.sound hw hbalanced).augments hw

/-- Three nodes in a row. A state of the search on them finds a bridge. -/
theorem search_augmented_row : (0 < 8 ∧ ∀ c ∈ row, c.builds = true)
    ∧ Builds row fun net => net.Throughout (Search.Augments net.topology)
      ∧ net.Sometimes fun s => ∃ v bridge, s.Finds net.topology v bridge := by
  have hw : 0 < 8 := by decide
  have hcalls : ∀ c ∈ row, c.builds = true := by decide
  exact ⟨⟨hw, hcalls⟩, (search_augmented hw row hcalls).and builds_row_found⟩

end Graph

end MinCut
