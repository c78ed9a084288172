import MinCut.Proofs.Search.Run

/-!
# Nodes with capacity left at a terminal

A node with capacity left at a terminal hangs from it, at every state of a search
(`Search.Visited.anchored`). So it is in the beginning. Growth leaves the nodes of the trees
where they are. An augmentation draws on two terminals and adds to none, and it cuts a root
off only if nothing is left there. The adoption moves no node with a depth, and a root has
one.

An orphan does not hang from its terminal, so nothing is left for it there: the one way
back into its tree is over an arc.
-/

namespace MinCut

namespace Forest

variable {n m : Nat} {T : Topology n m} {S S' : Support n m} {f g : Forest n m}
variable {p : Path n m} {v : Fin n} {s : Side}

/-- **A node with capacity left at a terminal hangs from it.** -/
def Anchored (S : Support n m) (f : Forest n m) : Prop :=
  ∀ ⦃v : Fin n⦄ ⦃s : Side⦄, S.terminal v = some s → f.place v = .tree s .terminal

/-- In the beginning the nodes with capacity left at a terminal are the roots. -/
theorem initial_anchored (S : Support n m) : (initial S).Anchored S := fun _ _ hv =>
  congrArg Label.place (label_initial_of_some hv)

namespace Anchored

/-- Nothing is left at its terminal for an orphan. -/
theorem terminal_ne (hf : f.Anchored S) (hv : f.place v = .tree s .orphan) (r : Side) :
    S.terminal v ≠ some r := fun hterminal =>
  absurd (hv.symm.trans (hf hterminal)) (by simp)

/-- **Whatever leaves the nodes of the trees where they are** keeps them anchored. -/
theorem of_side? (hf : f.Anchored S) (hfg : ∀ v, f.side? v ≠ none → g.place v = f.place v) :
    g.Anchored S := by
  intro v s hv
  have hplace := hf hv
  rw [hfg v (by rw [side?_of_place hplace]; exact Option.some_ne_none s)]
  exact hplace

/-- **Mending moves no root.** -/
theorem mended (hf : f.Anchored S) (hfg : Mended T f g) : g.Anchored S := fun _ _ hv =>
  (hfg.place (.root (link?_of_place (hf hv)))).trans (hf hv)

/-- **A root is cut off only if nothing is left at its terminal.** -/
theorem cut (hf : f.Anchored S) (hp : f.Augmenting T S p) (hs : Support.Sent p S S') :
    (f.cut T S' p).Anchored S' := by
  intro v s hv
  have hplace := hf (hs.terminal_of hv)
  rw [place_cut, if_neg]
  · exact hplace
  · intro hloose
    obtain ⟨r, hr⟩ := mem_path_loose.1 hloose
    rcases mem_leg_loose.1 hr with ⟨b, hb, _, rfl⟩ | ⟨hdead, rfl⟩
    · exact absurd (hplace.symm.trans (hp.place_tail hb)) (by simp)
    · obtain rfl : s = r := (Place.tree.inj (hplace.symm.trans (hp.place_root r))).1
      exact hdead hv

end Anchored

end Forest

namespace Search

variable {n m w : Nat} {T : Topology n m} {total : Int} {value : Finset Nat → Int}
variable {r : Residual (Signed w) n m} {s : Search (Signed w) n m} {v : Fin n} {bridge : Arc m}

/-- A scan leaves the nodes of the trees where they are. -/
theorem Sound.place_scanned (h : s.Sound T total value)
    (hselect : (s.forest.select s.current).1 = some v) {u : Fin n} (hu : s.forest.side? u ≠ none) :
    (Search.scanned T v s).forest.place u = s.forest.place u := by
  have hg := (Forest.select_spec h.forest).1 v hselect
  obtain ⟨side, hside⟩ := Option.ne_none_iff_exists'.1 hg.side?_ne_none
  have hgrown := (Forest.grow_spec hg.sound hside).1.grown
  have hu' : s.selected.side? u ≠ none := by
    rw [Forest.side?_eq, selected, hg.place u]
    exact hu
  exact (hgrown.place hu').trans (hg.place u)

/-- The forest with which an adoption begins. -/
theorem Sound.anchored_severed (h : s.Sound T total value) (hw : 0 < w)
    (hfinds : s.Finds T v bridge) (hs : s.forest.Anchored s.residual.support) :
    (s.severed T v bridge).Anchored
      (Search.augment T v bridge (Search.scanned T v s)).residual.support := by
  obtain ⟨hp, hx, hmoved⟩ := h.moved hw hfinds
  have hflag (u : Fin n) : ((Search.scanned T v s).forest.flag v true).place u
      = (Search.scanned T v s).forest.place u := Forest.place_flag _ v u true
  refine Forest.Anchored.cut (hs.of_side? fun u hu => ?_) (hp.of_place hflag) (hmoved.sent hx)
  rw [hflag]
  exact h.place_scanned hfinds.select_eq hu

/-- A turn keeps the nodes anchored. -/
theorem Sound.anchored_turn (h : s.Sound T total value) (hw : 0 < w)
    (hs : s.forest.Anchored s.residual.support) :
    (Search.turn T s).state.forest.Anchored (Search.turn T s).state.residual.support := by
  cases hselect : (s.forest.select s.current).1 with
  | none =>
    rw [turn_of_exhausted hselect]
    exact hs.of_side? fun u _ => ((Forest.select_spec h.forest).2 hselect).place u
  | some v =>
    cases hbridge : (s.selected.grow T s.residual.support v).1 with
    | none =>
      rw [turn_of_no_bridge hselect hbridge]
      exact hs.of_side? fun u => h.place_scanned hselect
    | some bridge =>
      have hfinds : s.Finds T v bridge := ⟨hselect, hbridge⟩
      rw [turn_of_bridge hfinds]
      have hadopt := Repair.run_mending T _ (.begin _) (h.mending hw hfinds)
      exact (h.anchored_severed hw hfinds hs).mended hadopt.2.2

/-- **A node with capacity left at a terminal hangs from it** at every state of a search. -/
theorem Visited.anchored (h : Visited T r s) (hw : 0 < w) (hr : r.Balanced total) :
    s.forest.Anchored s.residual.support := by
  induction h with
  | start => exact Forest.initial_anchored r.support
  | turn hs ih => exact (hs.sound hw hr).anchored_turn hw ih

end Search

end MinCut
