import MinCut.Proofs.Forest.Reattachment
import MinCut.Proofs.Graph.Adoption

/-!
# Roots

The roots of the trees are just the nodes with capacity left at a terminal, each of them in the
tree of this terminal (`Residual.Rooting`). This holds at every state of a search, also while
nodes are scanned and orphans are adopted. Only in the midst of an augmentation, when capacity
has been used up and the node has not been cut off yet, it does not.

So an orphan has nothing left at its terminal, and neither has a free node. Capacity at a
terminal is never given back, and a node that is no root any more never becomes one again. The
search provides for an orphan that could hang from its terminal, but there is none, and all
orphans that are counted as adopted have been hung from an arc (`Graph.search_roots`).
-/

namespace MinCut

open Finset

variable {n m w : Nat} {T : Topology n m} {total : Int} {value : Finset Nat → Int}

/-! ## The roots of a forest

A root of the source's tree has something left from the source, and a root of the sink's tree toward
the sink. The converse holds as well (`Residual.Rooting`), so that there can be no new roots as long
as no capacity is given back at a terminal. -/

namespace Forest

variable {f g h : Forest n m}

/-- **All roots of a forest were roots before**, in the same tree. -/
def RootsWithin (f g : Forest n m) : Prop :=
  ∀ ⦃v : Fin n⦄ ⦃side : Side⦄, g.place v = .tree side .terminal → f.place v = .tree side .terminal

/-- A forest has its own roots. -/
theorem RootsWithin.refl (f : Forest n m) : f.RootsWithin f := fun _ _ hv => hv

/-- Roots that are none of a forest before are none later. -/
theorem RootsWithin.trans (hfg : f.RootsWithin g) (hgh : g.RootsWithin h) : f.RootsWithin h :=
  fun _ _ hv => hfg (hgh hv)

end Forest

namespace Residual

variable {r r' : Residual (Signed w) n m} {f g : Forest n m} {v : Fin n} {side : Side}

/-- **The roots of a forest are the nodes with capacity left at a terminal.** -/
structure Rooting (r : Residual (Signed w) n m) (f : Forest n m) : Prop where
  /-- A node with capacity left from the source is a root of the source's tree. -/
  source {v : Fin n} : 0 < (r.excess v).toInt → f.place v = .tree .source .terminal
  /-- One with capacity left to the sink is a root of the sink's tree. -/
  sink {v : Fin n} : (r.excess v).toInt < 0 → f.place v = .tree .sink .terminal
  /-- There are no other roots. -/
  excess_ne_zero {v : Fin n} : f.link? v = some .terminal → (r.excess v).toInt ≠ 0
  /-- An orphan has nothing left at a terminal. -/
  excess_of_orphan {v : Fin n} : f.link? v = some .orphan → (r.excess v).toInt = 0
  /-- A free node has nothing left at a terminal. -/
  excess_of_free {v : Fin n} : f.place v = .free → (r.excess v).toInt = 0

/-- A node with nothing left at a terminal. -/
theorem terminal_support_eq_none_iff : r.support.terminal v = none ↔ (r.excess v).toInt = 0 := by
  have hsource := r.terminal_support_source_iff (v := v)
  have hsink := r.terminal_support_sink_iff (v := v)
  rcases hterminal : r.support.terminal v with _ | _ | _ <;> simp [hterminal] at hsource hsink ⊢ <;>
    omega

/-- A node that does not hang from a terminal has nothing left there. -/
theorem excess_of_anchored (hf : f.Anchored r.support) (hv : f.link? v ≠ some .terminal) :
    (r.excess v).toInt = 0 := by
  refine terminal_support_eq_none_iff.1 (Option.eq_none_iff_forall_ne_some.2 fun side hside => ?_)
  exact hv (Forest.link?_of_place (hf hside))

/-- Where the nodes with capacity left at a terminal hang from it, and no others do. -/
theorem Rooting.of_anchored (hf : f.Anchored r.support) (hl : f.Linked T r.support) :
    r.Rooting f where
  source hv := hf (terminal_support_source_iff.2 hv)
  sink hv := hf (terminal_support_sink_iff.2 hv)
  excess_ne_zero hv hzero := by
    obtain ⟨side, hplace⟩ := Forest.exists_place_of_link? hv
    have hterminal := hl.terminal hplace
    rw [terminal_support_eq_none_iff.2 hzero] at hterminal
    cases hterminal
  excess_of_orphan hv := excess_of_anchored hf (by simp [hv])
  excess_of_free hv := excess_of_anchored hf (by simp [Forest.link?_eq, hv])

/-- **The roots can be told from what is left at the terminals.** -/
theorem Rooting.place_iff (h : r.Rooting f) :
    f.place v = .tree side .terminal ↔ r.support.terminal v = some side := by
  have hroot {s : Side} (hs : r.support.terminal v = some s) : f.place v = .tree s .terminal := by
    cases s with
    | source => exact h.source (terminal_support_source_iff.1 hs)
    | sink => exact h.sink (terminal_support_sink_iff.1 hs)
  refine ⟨fun hv => ?_, hroot⟩
  have hne := mt terminal_support_eq_none_iff.1 (h.excess_ne_zero (Forest.link?_of_place hv))
  obtain ⟨s, hs⟩ := Option.ne_none_iff_exists'.1 hne
  obtain rfl : s = side := (Place.tree.inj ((hroot hs).symm.trans hv)).1
  exact hs

/-- **Where no capacity is given back**, there are no new roots. -/
theorem Rooting.rootsWithin (hf : r.Rooting f) (hg : r'.Rooting g)
    (h : ∀ v side, r'.support.terminal v = some side → r.support.terminal v = some side) :
    f.RootsWithin g := fun v side hv => hf.place_iff.2 (h v side (hg.place_iff.1 hv))

end Residual

namespace Search

variable {r : Residual (Signed w) n m} {s : Search (Signed w) n m} {v : Fin n} {bridge : Arc m}

/-! ## The roots in a turn

Only an augmentation changes what is left at the terminals, and it cuts off the roots that have
nothing left. Nothing is left at the terminal of an orphan, so that the pass makes no root of it,
and the roots can be told from the terminals at each state of the pass. -/

/-- **The roots at a state of an adoption pass**, in the turn of a search. Taking the next orphan
off the line moves no node, so that it makes no difference to them. -/
structure RootedPass (T : Topology n m) (s : Search (Signed w) n m) (r : Residual (Signed w) n m)
    (R : Repair n m) : Prop where
  /-- The roots are the nodes with capacity left at a terminal. -/
  rooting : r.Rooting R.forest
  /-- Nothing is left at a terminal for the orphan that is settled next. -/
  terminal_eq_none {u : Fin n} {orphans : Deque (Fin n)} :
    R.forest.orphans.popFront? = some (u, orphans) → r.support.terminal u = none
  /-- There are no new roots since the turn began, -/
  before : s.forest.RootsWithin R.forest
  /-- there are none later in the pass, -/
  later {R' : Repair n m} : Repair.Visited T r.support R R' → R.forest.RootsWithin R'.forest
  /-- and none when the turn is over. -/
  after : R.forest.RootsWithin (turn T s).state.forest

/-- **The roots in a turn of a search**, outside the augmentation. -/
structure RootedTurn (T : Topology n m) (s : Search (Signed w) n m) : Prop where
  /-- At the head of the loop, -/
  head : s.residual.Rooting s.forest
  /-- when a node has been selected, -/
  selected : s.residual.Rooting s.selected
  /-- when it has been scanned, -/
  scanned {v : Fin n} : (s.forest.select s.current).1 = some v →
    s.residual.Rooting (scanned T v s).forest
  /-- and at each state of the adoption that follows the augmentation. -/
  pass {v : Fin n} {bridge : Arc m} : s.Finds T v bridge →
    s.Severs T v bridge (turn T s).state.residual (s.severed T v bridge)
      ∧ ∀ R, Repair.Visited T (turn T s).state.residual.support (.begin (s.severed T v bridge)) R →
        s.RootedPass T (turn T s).state.residual R

/-- Selecting a node moves none. -/
theorem Sound.place_selected (h : s.Sound T total value) (u : Fin n) :
    s.selected.place u = s.forest.place u := by
  cases hselect : (s.forest.select s.current).1 with
  | none => exact ((Forest.select_spec h.forest).2 hselect).place u
  | some v => exact ((Forest.select_spec h.forest).1 v hselect).place u

/-- **A turn gives no capacity back** at a terminal. -/
theorem Sound.terminal_turn (h : s.Sound T total value) (hw : 0 < w) (u : Fin n) (side : Side)
    (hu : (Search.turn T s).state.residual.support.terminal u = some side) :
    s.residual.support.terminal u = some side := by
  rcases h.turn_residual hw with hsame | ⟨f, p, x, -, hx, hmoved⟩
  · rwa [hsame] at hu
  · exact (hmoved.sent hx).terminal_of hu

/-- The roots between two turns. -/
theorem Sound.rooting (h : s.Sound T total value) (ha : s.forest.Anchored s.residual.support) :
    s.residual.Rooting s.forest := .of_anchored ha h.forest.linked

/-- The forest and the amounts with which the pass of a turn begins. -/
theorem Sound.pass_begin (h : s.Sound T total value) (hw : 0 < w)
    (ha : s.forest.Anchored s.residual.support) (hfinds : s.Finds T v bridge) :
    (Repair.begin (s.severed T v bridge)).forest.Mending T
        (Search.turn T s).state.residual.support (some v) none
      ∧ (Repair.begin (s.severed T v bridge)).forest.Anchored
        (Search.turn T s).state.residual.support := by
  rw [turn_of_bridge hfinds]
  exact ⟨h.mending hw hfinds, h.anchored_severed hw hfinds ha⟩

/-- **The roots at each state of a pass.** -/
theorem Sound.rootedPass (h : s.Sound T total value) (hw : 0 < w)
    (ha : s.forest.Anchored s.residual.support) (hfinds : s.Finds T v bridge) {R : Repair n m}
    (hR : Repair.Visited T (Search.turn T s).state.residual.support
      (.begin (s.severed T v bridge)) R) :
    s.RootedPass T (Search.turn T s).state.residual R := by
  obtain ⟨hbegin, hsevered⟩ := h.pass_begin hw ha hfinds
  obtain ⟨hmending, hmended⟩ := hR.mending hbegin
  have hanchored := hsevered.mended hmended
  have hrooting := Residual.Rooting.of_anchored hanchored hmending.linked
  have hnext := (h.turn hw).rooting (h.anchored_turn hw ha)
  refine ⟨hrooting, fun hpop => ?_, (h.rooting ha).rootsWithin hrooting (h.terminal_turn hw),
    fun {R'} hR' => ?_, hrooting.rootsWithin hnext fun _ _ hu => hu⟩
  · exact Residual.terminal_support_eq_none_iff.2
      (hrooting.excess_of_orphan (hmending.pop hpop).1)
  · obtain ⟨hmending', hmended'⟩ := hR'.mending hmending
    have hrooting' := Residual.Rooting.of_anchored (hanchored.mended hmended') hmending'.linked
    exact hrooting.rootsWithin hrooting' fun _ _ hu => hu

/-- **The roots in a turn.** -/
theorem Sound.rootedTurn (h : s.Sound T total value) (hw : 0 < w)
    (ha : s.forest.Anchored s.residual.support) : s.RootedTurn T where
  head := h.rooting ha
  selected := .of_anchored (ha.of_side? fun u _ => h.place_selected u)
    (h.forest.linked.of_place h.place_selected)
  scanned hselect := .of_anchored (ha.of_side? fun _ => h.place_scanned hselect)
    (h.scanned hselect).sound.linked
  pass hfinds := by
    refine ⟨?_, fun R hR => h.rootedPass hw ha hfinds hR⟩
    exact h.severs hw hfinds

/-! ## The roots along a search

A search is numbered by its turns here, since the counts after a turn are compared with those
before. The count of adoptions grows by the orphans that the pass hangs from an arc. -/

/-- The search after some turns. -/
def after (T : Topology n m) (r : Residual (Signed w) n m) (k : Nat) : Search (Signed w) n m :=
  (fun s => (turn T s).state)^[k] (.start r)

/-- One turn more. -/
theorem after_succ (T : Topology n m) (r : Residual (Signed w) n m) (k : Nat) :
    after T r (k + 1) = (turn T (after T r k)).state := Function.iterate_succ_apply' _ k _

/-- The search after some turns is at a state that it goes through. -/
theorem visited_after (T : Topology n m) (r : Residual (Signed w) n m) (k : Nat) :
    Visited T r (after T r k) := by
  induction k with
  | zero => exact .start
  | succ k ih =>
    rw [after_succ]
    exact ih.turn

/-- Each state that it goes through is the one after some turns. -/
theorem Visited.exists_after (h : Visited T r s) : ∃ k, s = after T r k := by
  induction h with
  | start => exact ⟨0, rfl⟩
  | turn _ ih =>
    obtain ⟨k, rfl⟩ := ih
    exact ⟨k + 1, (after_succ T r k).symm⟩

open Classical in
/-- **The orphans that a turn hangs from an arc.** -/
noncomputable def reattached (T : Topology n m) (s : Search (Signed w) n m) : Finset (Fin n) :=
  univ.filter fun u => ∃ v bridge, s.Finds T v bridge ∧
    Repair.Reattaches T (turn T s).state.residual.support (.begin (s.severed T v bridge)) u

open Classical in
/-- An orphan is one of them if the pass of the turn hangs it up. -/
theorem mem_reattached {u : Fin n} : u ∈ s.reattached T ↔ ∃ v bridge, s.Finds T v bridge ∧
    Repair.Reattaches T (turn T s).state.residual.support (.begin (s.severed T v bridge)) u :=
  mem_filter_univ u

/-- Without a bridge there are none. -/
theorem reattached_of_not_finds (h : ∀ v bridge, ¬s.Finds T v bridge) : s.reattached T = ∅ :=
  eq_empty_of_forall_notMem fun _ hu => by
    obtain ⟨v, bridge, hfinds, -⟩ := mem_reattached.1 hu
    exact h v bridge hfinds

/-- With a bridge they are those of the pass. -/
theorem reattached_of_finds (h : s.Finds T v bridge) : s.reattached T
    = Repair.reattached T (turn T s).state.residual.support (.begin (s.severed T v bridge)) := by
  ext u
  rw [Repair.mem_reattached, mem_reattached]
  constructor
  · rintro ⟨v', bridge', h', hu⟩
    obtain rfl := Option.some.inj (h.select_eq.symm.trans h'.select_eq)
    obtain rfl := Option.some.inj (h.grow_eq.symm.trans h'.grow_eq)
    exact hu
  · exact fun hu => ⟨v, bridge, h, hu⟩

/-- A turn that augments no path counts nothing. -/
theorem adopted_turn_of_not_finds (h : ∀ v bridge, ¬s.Finds T v bridge) :
    (turn T s).state.stats.adopted = s.stats.adopted := by
  cases hselect : (s.forest.select s.current).1 with
  | none =>
    rw [turn_of_exhausted hselect]
    rfl
  | some v =>
    cases hbridge : (s.selected.grow T s.residual.support v).1 with
    | none =>
      rw [turn_of_no_bridge hselect hbridge]
      rfl
    | some bridge => exact absurd ⟨hselect, hbridge⟩ (h v bridge)

/-- **A turn counts the orphans that it hangs from an arc.** -/
theorem Sound.adopted_turn (h : s.Sound T total value) (hw : 0 < w)
    (ha : s.forest.Anchored s.residual.support) :
    (Search.turn T s).state.stats.adopted = s.stats.adopted + #(s.reattached T) := by
  by_cases hbridge : ∃ v bridge, s.Finds T v bridge
  · obtain ⟨v, bridge, hfinds⟩ := hbridge
    obtain ⟨hbegin, hanchored⟩ := h.pass_begin hw ha hfinds
    have hpass : ((s.severed T v bridge).adopt T (Search.turn T s).state.residual.support).adopted
        = #(s.reattached T) := by
      rw [reattached_of_finds hfinds]
      exact (Repair.adopted_run hbegin hanchored).trans (Nat.zero_add _)
    rw [← hpass, turn_of_bridge hfinds]
    rfl
  · have hnone (v : Fin n) (bridge : Arc m) : ¬s.Finds T v bridge := fun hfinds =>
      hbridge ⟨v, bridge, hfinds⟩
    rw [adopted_turn_of_not_finds hnone, reattached_of_not_finds hnone, card_empty, Nat.add_zero]

/-- **The roots along a search**, after some turns. -/
structure RootedAfter (T : Topology n m) (r : Residual (Signed w) n m) (k : Nat) : Prop where
  /-- In the next turn the roots are the nodes with capacity left at a terminal. -/
  turn : (after T r k).RootedTurn T
  /-- All roots were roots already after fewer turns. -/
  rootsWithin {j : Nat} : j ≤ k → (after T r j).forest.RootsWithin (after T r k).forest
  /-- As many orphans have been adopted as have been hung from an arc in all these turns. -/
  adopted_eq : (after T r k).stats.adopted = ∑ i ∈ range k, #((after T r i).reattached T)

/-- **What is said of the roots holds after every number of turns.** -/
theorem rootedAfter (hr : r.Balanced total) (hw : 0 < w) (k : Nat) : RootedAfter T r k := by
  have hsound (k : Nat) := (visited_after T r k).sound hw hr
  have hanchored (k : Nat) := (visited_after T r k).anchored hw hr
  refine ⟨(hsound k).rootedTurn hw (hanchored k), fun {j} hjk => ?_, ?_⟩
  · induction k, hjk using Nat.le_induction with
    | base => exact .refl _
    | succ k _ ih =>
      refine ih.trans (((hsound k).rooting (hanchored k)).rootsWithin
        ((hsound (k + 1)).rooting (hanchored (k + 1))) ?_)
      rw [after_succ]
      exact (hsound k).terminal_turn hw
  · induction k with
    | zero => rfl
    | succ k ih =>
      rw [sum_range_succ, ← ih, after_succ]
      exact (hsound k).adopted_turn hw (hanchored k)

end Search

/-- **The search on a network keeps its roots**, after every number of turns, and comes to its
end after one of them. -/
structure Network.KeepsRoots (net : Network (Signed w)) : Prop where
  /-- After every number of turns the roots are what they should be. -/
  after : ∀ k, Search.RootedAfter net.topology net.residual k
  /-- After one of them the search is over. -/
  ends : ∃ k, net.search = some (Search.after net.topology net.residual k)

namespace Graph

/-- **Only nodes with nothing left at a terminal are orphans or free**, at every state of a
search outside its augmentations, and no node becomes a root again. -/
theorem search_roots (hw : 0 < w) (calls : List (Call (Signed w)))
    (hcalls : ∀ c ∈ calls, c.builds = true) : Builds calls Network.KeepsRoots := by
  obtain ⟨net, hanswers, hbalanced, _⟩ := empty_answers hw hcalls
  obtain ⟨final, hsearch, hvisited, _⟩ := hbalanced.search hw
  obtain ⟨k, rfl⟩ := hvisited.exists_after
  exact ⟨net, hanswers, Search.rootedAfter hbalanced.residual hw, k, hsearch⟩

/-- The calls of `detour` that come before the search. Its first pass hangs one orphan from an arc,
and counts one adoption. -/
theorem search_roots_detour : (0 < 8 ∧ ∀ c ∈ detour.take 7, c.builds = true)
    ∧ Builds (detour.take 7) fun net => net.KeepsRoots
      ∧ net.Sometimes fun s => s.SomePass net.topology fun R =>
        R.adopted = 1 ∧ R.expelled.map Fin.val = [0] := by
  have hw : 0 < 8 := by decide
  have hcalls : ∀ c ∈ detour.take 7, c.builds = true := by decide
  exact ⟨⟨hw, hcalls⟩, (search_roots hw (detour.take 7) hcalls).and builds_detour_adopted⟩

end Graph

end MinCut
