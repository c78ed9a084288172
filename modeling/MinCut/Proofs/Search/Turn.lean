import MinCut.Proofs.Forest.Adoption
import MinCut.Proofs.Residual.Cut

/-!
# What a turn guarantees

Three things hold of a search between any two turns (`Search.Sound`): its amounts
are balanced, its forest is sound, and the flow with what is left across a cut is
what it was in the beginning, for every cut.

A turn keeps them, and it brings the search closer to its end, whatever it finds.
The nodes that may still be scanned for nothing are those that are active or
free. A scan that finds no bridge takes one of them away and adds none; a scan
that finds one may cut off many nodes, but sends at least one unit out of what
the source has left. `Search.potential` weighs the two so that it falls with every
turn (`Search.Sound.more`).

A turn has three outcomes: there is no node to be scanned, or the scan finds nothing, or it finds a
bridge. Each of them has its equation (`Search.turn_of_exhausted`, `Search.turn_of_no_bridge`,
`Search.turn_of_bridge`), and what is proved of turns is proved by going through the three.
-/

namespace MinCut

open Finset

/-! ## Selecting and scanning

A scan in vain leaves a node less that is pending, and a free node that joins a tree was pending
before. This is what bounds the number of turns between two augmentations. -/

namespace Forest

variable {n m : Nat} {T : Topology n m} {S : Support n m} {f g h : Forest n m} {v : Fin n}

/-- The nodes that may still be scanned without finding a bridge. -/
def pending (f : Forest n m) : Finset (Fin n) :=
  univ.filter fun v => (f.label v).active = true ∨ f.side? v = none

/-- A node is pending if it is active or free. -/
theorem mem_pending : v ∈ f.pending ↔ (f.label v).active = true ∨ f.side? v = none := by
  rw [pending, mem_filter, and_iff_right (mem_univ v)]

/-- No more nodes are pending than there are. -/
theorem card_pending_le (f : Forest n m) : #f.pending ≤ n := by
  have h := card_le_univ f.pending
  rwa [Fintype.card_fin] at h

/-- No time makes a node pending. -/
@[simp] theorem pending_tick (f : Forest n m) : f.tick.pending = f.pending := rfl

/-- **Scanning a node takes it away** from the nodes that are pending and adds
none. -/
theorem Selected.pending_ssubset (hg : f.Selected T S v g) (hgh : Grown g h) :
    h.pending ⊂ f.pending := by
  have hside (w : Fin n) : g.side? w = f.side? w := congrArg Place.side? (hg.place w)
  refine (ssubset_iff_of_subset fun w hw => ?_).2
    ⟨v, mem_pending.2 (.inl hg.was_active), fun hv => ?_⟩
  · rw [mem_pending] at hw ⊢
    rcases hw with hactive | hfree
    · rcases hgh.active hactive with hactive | hfree
      · exact .inl (hg.active_le hactive)
      · exact .inr ((hside w).symm.trans hfree)
    · right
      by_contra hw
      obtain ⟨r, hr⟩ := Option.ne_none_iff_exists'.1 hw
      rw [hgh.side? ((hside w).trans hr)] at hfree
      exact absurd hfree (by simp)
  · obtain ⟨r, hr⟩ := Option.ne_none_iff_exists'.1 hg.side?_ne_none
    rcases mem_pending.1 hv with hactive | hfree
    · rcases hgh.active hactive with hactive | hfree
      · rw [hg.active_eq_false] at hactive
        exact absurd hactive (by simp)
      · exact hg.side?_ne_none hfree
    · rw [hgh.side? hr] at hfree
      exact absurd hfree (by simp)

/-- **What is known after the scan of a node** has ended, with a bridge or
without. -/
structure Scanned (T : Topology n m) (S : Support n m) (v : Fin n) (bridge? : Option (Arc m))
    (f g : Forest n m) : Prop where
  /-- The forest is sound, but for the node, which may be loud. -/
  sound : g.Sound T S none (some v)
  /-- All stamps are older than the next pass. -/
  stamp_lt (w : Fin n) : (g.label w).stamp < g.time
  /-- The node is not active. -/
  active_eq_false : (g.label v).active = false
  /-- A bridge joins the tree of the node to the other one. -/
  joined {bridge : Arc m} : bridge? = some bridge →
    ∃ s, g.side? v = some s ∧ g.Joined T S v s bridge
  /-- Without a bridge there is nothing left to grow into. -/
  quiet : bridge? = none → g.Sound T S none none
  /-- It is not pending any more, and no other node is that was not before. -/
  pending_ssubset : g.pending ⊂ f.pending

/-- Selecting a node, scanning it and letting the time pass. -/
theorem Selected.scanned (hg : f.Selected T S v g) :
    f.Scanned T S v (g.grow T S v).1 (g.grow T S v).2.tick := by
  obtain ⟨s, hs⟩ := Option.ne_none_iff_exists'.1 hg.side?_ne_none
  obtain ⟨hscan, hnone⟩ := grow_spec hg.sound hs
  refine ⟨hscan.sound.tick, fun w => Nat.lt_succ_of_le (hscan.sound.stamped.stamp_le w), ?_,
    fun hb => ⟨s, hscan.grown.side? hs, hscan.joined hb⟩, fun hb => (hnone hb).tick, ?_⟩
  · rw [label_tick, Bool.eq_false_iff]
    intro hactive
    rcases hscan.grown.active hactive with hactive | hfree
    · rw [hg.active_eq_false] at hactive
      exact absurd hactive (by simp)
    · exact hg.side?_ne_none hfree
  · rw [pending_tick]
    exact hg.pending_ssubset hscan.grown

end Forest

namespace Search

/-! ## The three outcomes of a turn

The equations here are what is used of a turn elsewhere. They name the forests and paths in its
middle, which the definition has no names for. -/

section Outcomes

variable {α : Type} [Capacity α] {n m : Nat} {T : Topology n m} {s : Search α n m}

/-- The forest from which a turn scans. -/
def selected (s : Search α n m) : Forest n m := (s.forest.select s.current).2

/-- The search after the scan of a node, whatever the scan has found. -/
def scanned (T : Topology n m) (v : Fin n) (s : Search α n m) : Search α n m :=
  { s with
    forest := (s.selected.grow T s.residual.support v).2.tick
    current := none
    stats := { s.stats with growthSteps := s.stats.growthSteps + 1 } }

/-- The turn scans a node and finds a bridge. -/
structure Finds (T : Topology n m) (s : Search α n m) (v : Fin n) (bridge : Arc m) : Prop where
  /-- The node is selected. -/
  select_eq : (s.forest.select s.current).1 = some v
  /-- Its scan ends with the bridge. -/
  grow_eq : (s.selected.grow T s.residual.support v).1 = some bridge

/-- The path that is augmented then. -/
def path (T : Topology n m) (v : Fin n) (bridge : Arc m) (s : Search α n m) : Path n m :=
  (scanned T v s).forest.path T bridge

/-- The forest in which the nodes of that path have been cut off whose links do not hold
any more. -/
def severed (T : Topology n m) (v : Fin n) (bridge : Arc m) (s : Search α n m) : Forest n m :=
  ((scanned T v s).forest.flag v true).cut T
    (augment T v bridge (scanned T v s)).residual.support (s.path T v bridge)

/-- There is no node to scan. -/
theorem turning_of_exhausted (h : (s.forest.select s.current).1 = none) :
    turning T s = pure (.done { s with forest := s.selected, current := none }) := by
  obtain ⟨r, f, current, stats, events⟩ := s
  have hselect : f.select current = (none, (f.select current).2) := Prod.ext h rfl
  unfold turning
  dsimp only
  rw [hselect]
  rfl

/-- The scan of a node finds nothing. -/
theorem turning_of_no_bridge {v : Fin n} (h : (s.forest.select s.current).1 = some v)
    (hbridge : (s.selected.grow T s.residual.support v).1 = none) :
    turning T s = pure (.more (scanned T v s)) := by
  obtain ⟨r, f, current, stats, events⟩ := s
  have hselect : f.select current = (some v, (f.select current).2) := Prod.ext h rfl
  have hgrow : (f.select current).2.grow T r.support v
      = (none, ((f.select current).2.grow T r.support v).2) := Prod.ext hbridge rfl
  unfold turning
  dsimp only
  rw [hselect]
  dsimp only
  rw [hgrow]
  rfl

/-- The scan of a node finds a bridge, and its path is augmented. -/
theorem turning_of_bridge {v : Fin n} {bridge : Arc m} (h : s.Finds T v bridge) :
    turning T s = augmenting T v bridge (scanned T v s) >>= fun s => pure (.more s) := by
  obtain ⟨h, hbridge⟩ := h
  obtain ⟨r, f, current, stats, events⟩ := s
  have hselect : f.select current = (some v, (f.select current).2) := Prod.ext h rfl
  have hgrow : (f.select current).2.grow T r.support v
      = (some bridge, ((f.select current).2.grow T r.support v).2) := Prod.ext hbridge rfl
  unfold turning
  dsimp only
  rw [hselect]
  dsimp only
  rw [hgrow]
  rfl

/-- The turn with which a search is over. -/
theorem turn_of_exhausted (h : (s.forest.select s.current).1 = none) :
    turn T s = .done { s with forest := s.selected, current := none } :=
  congrArg Recorded.value (turning_of_exhausted h)

/-- The turn that scans a node in vain. -/
theorem turn_of_no_bridge {v : Fin n} (h : (s.forest.select s.current).1 = some v)
    (hbridge : (s.selected.grow T s.residual.support v).1 = none) :
    turn T s = .more (scanned T v s) :=
  congrArg Recorded.value (turning_of_no_bridge h hbridge)

/-- The turn that augments a path. -/
theorem turn_of_bridge {v : Fin n} {bridge : Arc m} (h : s.Finds T v bridge) :
    turn T s = .more (augment T v bridge (scanned T v s)) :=
  congrArg Recorded.value (turning_of_bridge h)

/-- What an augmentation tells: the amount sent, and then the nodes expelled. -/
theorem events_augment (s : Search α n m) (v : Fin n) (bridge : Arc m) :
    (augment T v bridge (scanned T v s)).events
      = ((s.severed T v bridge).adopt T (augment T v bridge
          (scanned T v s)).residual.support).expelled.map (fun u => .expelled u.val)
        ++ .augmented ((s.path T v bridge).bottleneck s.residual) bridge.number (T.tail bridge)
          (T.head bridge) :: s.events := rfl

end Outcomes

/-! ## The invariant -/

variable {n m w : Nat} {T : Topology n m} {total : Int} {value : Finset Nat → Int}
variable {s : Search (Signed w) n m} {v : Fin n}

/-- **What holds of a search between two turns.** -/
structure Sound (T : Topology n m) (total : Int) (value : Finset Nat → Int)
    (s : Search (Signed w) n m) : Prop where
  /-- The amounts add up to the total. -/
  balanced : s.residual.Balanced total
  /-- The trees are sound. -/
  forest : s.forest.Sound T s.residual.support s.current none
  /-- What flows and what is left across a cut make up the value of the cut. -/
  flow_add_crossing (X : Finset Nat) :
    s.residual.flow.toInt + s.residual.crossing T X = value X

/-- **How far a search is from its end.** A unit that the source can still send weighs more than all
nodes together, since sending it may make all of them pending. -/
def potential (s : Search (Signed w) n m) : Nat :=
  s.residual.supply * (n + 1) + #s.forest.pending

/-! ## One turn

Each outcome keeps the invariant, by the lemmas about growth, cuts and adoption. The two that go on
bring the search closer to its end: a scan in vain by a node, an augmentation by an amount. -/

/-- **The search has come to its end** when no node can be selected. -/
theorem Sound.exhausted (h : s.Sound T total value)
    (hselect : (s.forest.select s.current).1 = none) :
    Sound T total value { s with forest := s.selected, current := none }
      ∧ s.selected.queue.toList = [] := by
  have hend := (Forest.select_spec h.forest).2 hselect
  exact ⟨⟨h.balanced, hend.sound, h.flow_add_crossing⟩, hend.queue_eq_nil⟩

/-- A scan leaves the forest as the augmentation expects it. -/
theorem Sound.scanned (h : s.Sound T total value)
    (hselect : (s.forest.select s.current).1 = some v) :
    s.forest.Scanned T s.residual.support v (s.selected.grow T s.residual.support v).1
      (scanned T v s).forest :=
  ((Forest.select_spec h.forest).1 v hselect).scanned

/-- The scan that finds a bridge. -/
theorem Sound.found {bridge : Arc m} (h : s.Sound T total value) (hfinds : s.Finds T v bridge) :
    s.forest.Scanned T s.residual.support v (some bridge) (Search.scanned T v s).forest := by
  have hf := h.scanned hfinds.select_eq
  rwa [hfinds.grow_eq] at hf

/-- **What an augmentation does to the amounts**: it sends along an augmenting path
what that has left. -/
theorem Sound.moved {bridge : Arc m} (h : s.Sound T total value) (hw : 0 < w)
    (hfinds : s.Finds T v bridge) :
    (Search.scanned T v s).forest.Augmenting T s.residual.support (s.path T v bridge)
      ∧ s.residual.Sendable (s.path T v bridge) ((s.path T v bridge).bottleneck s.residual).toInt
      ∧ s.residual.Moved (s.path T v bridge) ((s.path T v bridge).bottleneck s.residual).toInt
        (Search.augment T v bridge (Search.scanned T v s)).residual := by
  have hf := h.found hfinds
  obtain ⟨side, hside, hjoined⟩ := hf.joined rfl
  have hp := hf.sound.augmenting hside hjoined
  have hx := h.balanced.sendable hw hp
  exact ⟨hp, hx, h.balanced.moved_send hw hp hx⟩

/-- The forest that the adoption begins with. -/
theorem Sound.mending {bridge : Arc m} (h : s.Sound T total value) (hw : 0 < w)
    (hfinds : s.Finds T v bridge) :
    (s.severed T v bridge).Mending T
      (Search.augment T v bridge (Search.scanned T v s)).residual.support (some v) none := by
  have hf := h.found hfinds
  obtain ⟨hp, hx, hmoved⟩ := h.moved hw hfinds
  have hold (u : Fin n) : (((Search.scanned T v s).forest.flag v true).label u).stamp
      < ((Search.scanned T v s).forest.flag v true).time := by
    rw [Forest.label_flag]
    split
    · exact hf.stamp_lt v
    · exact hf.stamp_lt u
  -- the flag shows the adoption that the node scanned waits already
  exact (hf.sound.flag hf.active_eq_false).cut hold
    (hp.of_place fun u => Forest.place_flag _ v u true) (hmoved.sent hx)

/-- **Augmenting keeps what holds of a search**, and takes from the supply. -/
theorem Sound.augment {bridge : Arc m} (h : s.Sound T total value) (hw : 0 < w)
    (hfinds : s.Finds T v bridge) :
    (Search.augment T v bridge (Search.scanned T v s)).Sound T total value
      ∧ (Search.augment T v bridge (Search.scanned T v s)).residual.supply < s.residual.supply := by
  obtain ⟨hp, hx, hmoved⟩ := h.moved hw hfinds
  refine ⟨⟨hmoved.balanced hx hp h.balanced, (h.mending hw hfinds).adopt_sound, fun X => ?_⟩, ?_⟩
  · rw [hmoved.flow, hmoved.crossing hx hp, ← h.flow_add_crossing]
    omega
  · have hsupply := hmoved.supply hx hp
    have hpos := hx.pos
    have hfall : ((Search.augment T v bridge (Search.scanned T v s)).residual.supply : Int)
        < s.residual.supply := by
      rw [hsupply]
      exact Int.sub_lt_self _ hpos
    exact Int.ofNat_lt.1 hfall

/-- **The amounts after a turn** are those before, unless the turn augments a path. -/
theorem Sound.turn_residual (h : s.Sound T total value) (hw : 0 < w) :
    (turn T s).state.residual = s.residual
      ∨ ∃ (f : Forest n m) (p : Path n m) (x : Int), f.Augmenting T s.residual.support p
        ∧ s.residual.Sendable p x ∧ s.residual.Moved p x (turn T s).state.residual := by
  cases hselect : (s.forest.select s.current).1 with
  | none =>
    rw [turn_of_exhausted hselect]
    exact .inl rfl
  | some v =>
    cases hbridge : (s.selected.grow T s.residual.support v).1 with
    | none =>
      rw [turn_of_no_bridge hselect hbridge]
      exact .inl rfl
    | some bridge =>
      have hfinds : s.Finds T v bridge := ⟨hselect, hbridge⟩
      rw [turn_of_bridge hfinds]
      exact .inr ⟨_, _, _, h.moved hw hfinds⟩

/-- **A turn after which there may be more to do** has brought the search closer
to its end. -/
theorem Sound.more {s' : Search (Signed w) n m} (h : s.Sound T total value) (hw : 0 < w)
    (hs' : turn T s = .more s') : s'.Sound T total value ∧ s'.potential < s.potential := by
  cases hselect : (s.forest.select s.current).1 with
  | none =>
    rw [turn_of_exhausted hselect] at hs'
    cases hs'
  | some v =>
    cases hbridge : (s.selected.grow T s.residual.support v).1 with
    | none =>
      -- the amounts are what they were, and one node fewer is pending
      have hf := h.scanned hselect
      rw [hbridge] at hf
      rw [turn_of_no_bridge hselect hbridge] at hs'
      obtain rfl := Turn.more.inj hs'
      refine ⟨⟨h.balanced, hf.quiet rfl, h.flow_add_crossing⟩, ?_⟩
      exact Nat.add_lt_add_left (card_lt_card hf.pending_ssubset) _
    | some bridge =>
      have hfinds : s.Finds T v bridge := ⟨hselect, hbridge⟩
      rw [turn_of_bridge hfinds] at hs'
      obtain rfl := Turn.more.inj hs'
      obtain ⟨hsound, hsupply⟩ := h.augment hw hfinds
      refine ⟨hsound, ?_⟩
      -- nodes may be pending again, but no more than there are
      have hpending := (Search.augment T v bridge (Search.scanned T v s)).forest.card_pending_le
      have hfall := Nat.mul_le_mul_right (n + 1) (Nat.succ_le_of_lt hsupply)
      rw [Nat.succ_mul] at hfall
      unfold potential
      omega

/-- **The turn with which a search is over** leaves no node to be scanned and no
amount changed. -/
theorem Sound.done {s' : Search (Signed w) n m} (h : s.Sound T total value)
    (hs' : turn T s = .done s') :
    s'.Sound T total value ∧ s'.current = none ∧ s'.forest.queue.toList = [] := by
  cases hselect : (s.forest.select s.current).1 with
  | none =>
    rw [turn_of_exhausted hselect] at hs'
    obtain rfl := Turn.done.inj hs'
    obtain ⟨hsound, hqueue⟩ := h.exhausted hselect
    exact ⟨hsound, rfl, hqueue⟩
  | some v =>
    cases hbridge : (s.selected.grow T s.residual.support v).1 with
    | none =>
      rw [turn_of_no_bridge hselect hbridge] at hs'
      cases hs'
    | some bridge =>
      rw [turn_of_bridge ⟨hselect, hbridge⟩] at hs'
      cases hs'

end Search

end MinCut
