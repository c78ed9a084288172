import MinCut.Proofs.Forest.Expulsion
import MinCut.Proofs.Forest.Tracing

/-!
# What an adoption pass guarantees

A pass takes a forest in which some nodes are orphans to one in which none is.
The invariant `Forest.Mending` holds between its rounds, and this module
carries it through one round (`Repair.round_mending`) and from there through
the pass (`Repair.run_mending`), which leaves the forest sound
(`Forest.Mending.adopt_sound`).

A round takes an orphan off the line and attaches it by a foothold or expels it.
Each node whose chain reaches a terminal at some point of the pass stays where
it is until the end, since only nodes without a depth are moved.

What a round does is told once (`Repair.round_cases`), and each invariant follows from there. If the
line is empty the pass is over. Otherwise its first entry is an orphan, although the program looks
to make sure of it, and the round settles that orphan.
-/

namespace MinCut

namespace Forest

variable {n m : Nat} {T : Topology n m} {S : Support n m} {f g h : Forest n m}
variable {current held : Option (Fin n)} {v : Fin n} {s : Side}

/-! ## Adopting -/

/-- An orphan that is adopted stays in its tree, and so does every other node. -/
theorem side?_attach_of_orphan (hv : f.place v = .tree s .orphan) (w : Fin n) (l : Link m)
    (t d : Nat) : (f.attach v s l t d).side? w = f.side? w := by
  rw [side?_attach]
  split
  · rename_i h
    rw [h, side?_of_place hv]
  · rfl

/-- Adopting an orphan leaves the nodes with a depth alone. -/
theorem Mended.attach {l : Link m} {t d : Nat} (hv : f.place v = .tree s .orphan) :
    Mended T f (f.attach v s l t d) where
  place {w} k hw := by
    rw [place_attach, if_neg]
    -- an orphan has no depth
    rintro rfl
    exact not_depth_of_orphan hv k hw
  side? w := .inl (side?_attach_of_orphan hv w l t d)
  active {w} hw := (active_attach f v w s l t d).trans hw
  time := rfl

/-- **Adopting the orphan taken off the line** restores the invariant. -/
theorem Mending.attach {l : Link m} {d : Nat} (hf : f.Mending T S current (some v))
    (hv : f.place v = .tree s .orphan) (hl : f.Foothold T S v s l d) :
    (f.attach v s l f.time d).Mending T S current none where
  linked := hf.linked.attach hl (not_depth_of_orphan hv) (.inr (side?_of_place hv))
  stamped := hf.stamped.attach hl (not_depth_of_orphan hv) (Nat.le_refl _) fun _ => rfl
  listed := by
    -- the node that was held is no orphan any more, so that no node need be excepted
    refine ⟨hf.listed.nodup, fun w => (hf.listed.mem_iff w).trans ?_⟩
    rw [link?_attach]
    by_cases h : w = v
    · subst h
      simp [hl.ne_orphan]
    · simp [h, Ne.symm h]
  waiting := hf.waiting.congr (fun w => active_attach f v w s l f.time d) rfl
  quiet := hf.quiet.congr (fun w => side?_attach_of_orphan hv w l f.time d)
    fun w => active_attach f v w s l f.time d
  claimed := hf.claimed.congr fun w => side?_attach_of_orphan hv w l f.time d

/-- **Taking the first orphan off the line** leaves it held until it has been settled. The line
lists no node twice, so the orphan is not to be found on it any more. -/
theorem Mending.pop {orphans : Deque (Fin n)} (hf : f.Mending T S current none)
    (hpop : f.orphans.popFront? = some (v, orphans)) :
    f.link? v = some .orphan ∧ ({ f with orphans } : Forest n m).Mending T S current (some v)
      ∧ Mended T f { f with orphans } := by
  have hlist := Deque.toList_of_popFront? hpop
  have hnodup := hf.listed.nodup
  rw [hlist, List.nodup_cons] at hnodup
  have hv : f.link? v = some .orphan := by
    refine ((hf.listed.mem_iff v).1 ?_).1
    rw [hlist]
    exact List.mem_cons_self
  have hpopped : Mended T f { f with orphans } :=
    ⟨fun _ => rfl, fun _ => .inl rfl, fun ha => ha, rfl⟩
  refine ⟨hv, ⟨hf.linked.of_place fun _ => rfl, ?_, ⟨hnodup.2, fun w => ?_⟩, ?_,
    hf.quiet, hf.claimed⟩, hpopped⟩
  · exact ⟨hf.stamped.stamp_le, fun hw hnow => hpopped.depth (hf.stamped.depth hw hnow)⟩
  · -- the rest of the line lists all orphans but the one that was first
    have hmem := hf.listed.mem_iff w
    rw [hlist, List.mem_cons] at hmem
    show w ∈ orphans.toList ↔ f.link? w = some .orphan ∧ _
    by_cases hw : w = v
    · subst hw
      simp [hnodup.1]
    · simpa [hw, Ne.symm hw] using hmem
  · exact ⟨hf.waiting.nodup, hf.waiting.active_iff, hf.waiting.not_queued⟩

end Forest

/-! ## The pass

Each round restores the invariant, with the orphan that has been taken off the line either hung up
again or free. By induction on the rounds it holds at the end, when no orphan is left, and then it
is that of a sound forest. -/

namespace Repair

variable {n m : Nat} {T : Topology n m} {S : Support n m} {r r' : Repair n m}
variable {current : Option (Fin n)} {v : Fin n} {s : Side}

/-- **Settling an orphan** restores the invariant, whether it is hung from its terminal, from the
best parent or from nothing. Looking for a parent notes distances and moves no node, so what holds
of the forest before holds of the one in which the orphan is settled. -/
theorem settle_mending (hr : r.forest.Mending T S current (some v))
    (hv : r.forest.place v = .tree s .orphan) :
    (settle T S s r v).forest.Mending T S current none
      ∧ Forest.Mended T r.forest (settle T S s r v).forest := by
  obtain ⟨f, adopted, expelled⟩ := r
  simp only [settle]
  split
  · rename_i hterm
    -- it has capacity left at its terminal
    exact ⟨hr.attach hv (.terminal hterm), .attach hv⟩
  · rename_i hterm
    obtain ⟨halike, hstamped, hfoothold⟩ := Forest.bestParent_spec hr.linked hr.stamped v s
    split
    · rename_i g a d hbest
      rw [hbest] at halike hstamped hfoothold
      -- there is a parent, and it is a foothold
      have hg := hr.of_alike halike hstamped
      have hgv : g.place v = .tree s .orphan := (halike.place v).trans hv
      have hfoot : g.Foothold T S v s (.arc a) (d + 1) := (hfoothold rfl).of_alike halike.symm
      exact ⟨hg.attach hgv hfoot, halike.mended.trans (.attach hgv)⟩
    · rename_i g hbest
      rw [hbest] at halike hstamped
      -- there is none, and the node is expelled
      have hg := hr.of_alike halike hstamped
      have hgv : g.place v = .tree s .orphan := (halike.place v).trans hv
      obtain ⟨hmending, hmended⟩ := hg.expel hgv hterm
      exact ⟨hmending, halike.mended.trans hmended⟩

/-- A round finds no orphan to settle. -/
theorem round_of_none (hpop : r.forest.orphans.popFront? = none) : round T S r = .done r := by
  unfold round
  dsimp only
  rw [hpop]

/-- An orphan is taken off the line and settled. -/
theorem round_of_orphan {orphans : Deque (Fin n)}
    (hpop : r.forest.orphans.popFront? = some (v, orphans))
    (hv : r.forest.place v = .tree s .orphan) :
    round T S r = .more (settle T S s { r with forest := { r.forest with orphans } } v) := by
  have hplace : (({ r.forest with orphans } : Forest n m).label v).place = .tree s .orphan := hv
  unfold round
  dsimp only
  rw [hpop]
  dsimp only
  rw [hplace]

/-- **What a round does**: it settles the first orphan, if there is one. Whatever it takes off
the line is an orphan. -/
theorem round_cases (hr : r.forest.Mending T S current none) :
    r.forest.orphans.popFront? = none ∧ round T S r = .done r
      ∨ ∃ v s orphans, r.forest.orphans.popFront? = some (v, orphans)
        ∧ r.forest.place v = .tree s .orphan
        ∧ ({ r.forest with orphans } : Forest n m).Mending T S current (some v)
        ∧ Forest.Mended T r.forest { r.forest with orphans }
        ∧ round T S r = .more (settle T S s { r with forest := { r.forest with orphans } } v) := by
  cases hpop : r.forest.orphans.popFront? with
  | none => exact .inl ⟨rfl, round_of_none hpop⟩
  | some popped =>
    obtain ⟨v, orphans⟩ := popped
    obtain ⟨hlink, hheld, hpopped⟩ := hr.pop hpop
    obtain ⟨s, hplace⟩ := Forest.exists_place_of_link? hlink
    exact .inr ⟨v, s, orphans, rfl, hplace, hheld, hpopped, round_of_orphan hpop hplace⟩

/-- A pass that is over has no orphans left to settle. -/
theorem round_done (hr : r.forest.Mending T S current none) (h : round T S r = .done r') :
    r' = r ∧ r.forest.orphans.toList = [] := by
  rcases round_cases hr with ⟨hpop, hround⟩ | ⟨v, s, orphans, -, -, -, -, hround⟩
  · exact ⟨(Turn.done.inj (hround.symm.trans h)).symm, Deque.popFront?_eq_none_iff.1 hpop⟩
  · exact absurd (hround.symm.trans h) (by simp)

/-- **One round of a pass** keeps the invariant. -/
theorem round_mending (hr : r.forest.Mending T S current none)
    (h : round T S r = .more r') :
    r'.forest.Mending T S current none ∧ Forest.Mended T r.forest r'.forest := by
  rcases round_cases hr with ⟨-, hround⟩ | ⟨v, s, orphans, -, hplace, hheld, hpopped, hround⟩
  · exact absurd (hround.symm.trans h) (by simp)
  · obtain rfl := Turn.more.inj (hround.symm.trans h)
    obtain ⟨hmending, hmended⟩ :=
      settle_mending (r := { r with forest := { r.forest with orphans } }) hheld hplace
    exact ⟨hmending, hpopped.trans hmended⟩

/-- A pass ends with the round that finds none. -/
theorem run_of_done (h : round T S r = .done r') : r.run T S = r' := by
  rw [run]
  split
  · rename_i h'
    exact Turn.done.inj (h'.symm.trans h)
  · rename_i h'
    exact absurd (h'.symm.trans h) (by simp)

/-- A pass goes on after a round that has settled one. -/
theorem run_of_more (h : round T S r = .more r') : r.run T S = r'.run T S := by
  rw [run]
  split
  · rename_i h'
    exact absurd (h'.symm.trans h) (by simp)
  · rename_i h'
    rw [Turn.more.inj (h'.symm.trans h)]

/-- **A pass settles all orphans** and keeps the invariant. -/
theorem run_mending (T : Topology n m) (S : Support n m) (r : Repair n m)
    (hr : r.forest.Mending T S current none) :
    (r.run T S).forest.Mending T S current none
      ∧ (r.run T S).forest.orphans.toList = []
      ∧ Forest.Mended T r.forest (r.run T S).forest := by
  -- over the rounds, as the pass recurses
  induction r using Repair.run.induct T S with
  | case1 r r' hround =>
    rw [run_of_done hround]
    obtain ⟨rfl, hnil⟩ := round_done hr hround
    exact ⟨hr, hnil, .refl _⟩
  | case2 r r' hround ih =>
    obtain ⟨hmending, hmended⟩ := round_mending hr hround
    obtain ⟨hend, hnil, hrest⟩ := ih hmending
    rw [run_of_more hround]
    exact ⟨hend, hnil, hmended.trans hrest⟩

end Repair

/-- **An adoption pass leaves the forest sound.** -/
theorem Forest.Mending.adopt_sound {n m : Nat} {T : Topology n m} {S : Support n m}
    {f : Forest n m} {current : Option (Fin n)} (hf : f.Mending T S current none) :
    (f.adopt T S).forest.Sound T S current none := by
  obtain ⟨hend, hnil, _⟩ := Repair.run_mending T S (Repair.begin f) hf
  refine ⟨hend.linked, hend.stamped, hend.waiting, hend.quiet, hend.claimed, fun v hv => ?_, hnil⟩
  -- an orphan would be listed
  have hmem := (hend.listed.mem_iff v).2 ⟨hv, by simp⟩
  rw [hnil] at hmem
  exact absurd hmem List.not_mem_nil

end MinCut
