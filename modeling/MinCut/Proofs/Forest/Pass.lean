import MinCut.Proofs.Forest.Loops
import MinCut.Proofs.Forest.Settling

/-!
# What becomes of each node in an adoption pass

An adoption pass works through the orphans, and new ones are added while it does. What it
comes to is told here for each node (`Forest.Adopts`). A node with a depth stays where it is.
Every other node of a tree hangs from the same terminal in the end, by links that hold, or is
free, and then no node hangs from it. Free nodes stay free.

No node is settled twice. A round leaves the node that it settles with a depth or free
(`Repair.state_round_settled`), and neither changes any more (`Forest.Mended.place_eq`). It
matters that a mended forest is mended for good: a neighbour whose chain runs into another
orphan is no candidate, even if that orphan is adopted later.
-/

namespace MinCut

variable {n m : Nat} {T : Topology n m} {S : Support n m}

namespace Forest

variable {f g : Forest n m} {v : Fin n} {s : Side} {d : Nat}

/-- A node without a tree is free. -/
theorem place_eq_free_iff : f.place v = .free ↔ f.side? v = none := by
  rw [side?_eq]
  cases f.place v <;> simp

/-- **A node hangs from the terminal of a side**, by links that flow can run over, and nodes of
the same tree. -/
inductive Hangs (T : Topology n m) (S : Support n m) (f : Forest n m) (s : Side) : Fin n → Prop
  /-- The node is a root, with capacity left at the terminal. -/
  | root {v : Fin n} (place : f.place v = .tree s .terminal) (terminal : S.terminal v = some s) :
      Hangs T S f s v
  /-- Its parent hangs from the terminal. -/
  | child {v : Fin n} {a : Arc m} (place : f.place v = .tree s (.arc a))
      (live : S.live s a = true) (up : Hangs T S f s (T.head a)) : Hangs T S f s v

/-- A node with a depth hangs from the terminal of its tree. -/
theorem Depth.hangs (h : f.Depth T v d) (hl : f.Linked T S) (hv : f.side? v = some s) :
    f.Hangs T S s v := by
  induction h with
  | @root v hlink =>
    obtain ⟨r, hplace⟩ := exists_place_of_link? hlink
    obtain rfl : r = s := Option.some.inj ((side?_of_place hplace).symm.trans hv)
    exact .root hplace (hl.terminal hplace)
  | @child v a d hlink _ ih =>
    obtain ⟨r, hplace⟩ := exists_place_of_link? hlink
    obtain rfl : r = s := Option.some.inj ((side?_of_place hplace).symm.trans hv)
    exact .child hplace (hl.live hplace) (ih (hl.head hplace))

/-- No node hangs from a free one. -/
theorem Linked.head_ne_of_free {u : Fin n} {a : Arc m} (hl : f.Linked T S)
    (hv : f.side? v = none) (hu : f.link? u = some (.arc a)) : T.head a ≠ v := by
  rintro rfl
  obtain ⟨r, hplace⟩ := exists_place_of_link? hu
  exact absurd (hv.symm.trans (hl.head hplace)) (by simp)

/-- A node is settled if it has a depth or is free. In both cases nothing that a pass does concerns
it any more. -/
def Settled (T : Topology n m) (f : Forest n m) (v : Fin n) : Prop :=
  (∃ d, f.Depth T v d) ∨ f.side? v = none

/-- It is no orphan then. -/
theorem Settled.link?_ne_orphan (h : f.Settled T v) : f.link? v ≠ some .orphan := by
  rcases h with ⟨d, hd⟩ | hfree
  · exact hd.not_orphan
  · rw [link?_eq_none_iff.2 hfree]
    exact (Option.some_ne_none _).symm

namespace Mended

/-- **Mending leaves a settled node where it is.** -/
theorem place_eq (hfg : Mended T f g) (hv : f.Settled T v) : g.place v = f.place v := by
  rcases hv with ⟨d, hd⟩ | hfree
  · exact hfg.place hd
  · rw [place_eq_free_iff.2 hfree, place_eq_free_iff.2 (hfg.side?_eq_none hfree)]

/-- It stays settled. -/
theorem settled (hfg : Mended T f g) (hv : f.Settled T v) : g.Settled T v := by
  rcases hv with ⟨d, hd⟩ | hfree
  · exact .inl ⟨d, hfg.depth hd⟩
  · exact .inr (hfg.side?_eq_none hfree)

end Mended

end Forest

namespace Repair

variable {r r' : Repair n m} {current : Option (Fin n)} {v : Fin n} {orphans : Deque (Fin n)}

/-- **A round settles the node it takes off the line.** -/
theorem state_round_settled (hr : r.forest.Mending T S current none)
    (hpop : r.forest.orphans.popFront? = some (v, orphans)) :
    (round T S r).state.forest.Settled T v := by
  obtain ⟨hlink, hheld, -⟩ := hr.pop hpop
  obtain ⟨s, hplace⟩ := Forest.exists_place_of_link? hlink
  rw [round_of_orphan hpop hplace]
  rcases settle_cases (r := { r with forest := { r.forest with orphans } }) hheld hplace with
    ⟨-, -, hdepth⟩ | ⟨-, -, hfree⟩
  · exact .inl hdepth
  · exact .inr hfree

end Repair

namespace Forest

variable {f : Forest n m} {current : Option (Fin n)}

/-- **What an adoption pass guarantees**, from the forest with which it begins. -/
structure Adopts (T : Topology n m) (S : Support n m) (f : Forest n m) : Prop where
  /-- It ends, -/
  ends : Loop.Ends (fun r => (Repair.round T S r).toSum) (.begin f) (f.adopt T S)
  /-- and then there are no orphans. -/
  orphans_eq_nil : (f.adopt T S).forest.orphans.toList = []
  /-- No node is one, whether it was listed or not. -/
  link?_ne_orphan (v : Fin n) : (f.adopt T S).forest.link? v ≠ some .orphan
  /-- Whatever is taken off the line is an orphan. -/
  popped {r : Repair n m} {v : Fin n} {orphans : Deque (Fin n)} :
    Repair.Visited T S (.begin f) r → r.forest.orphans.popFront? = some (v, orphans) →
      r.forest.link? v = some .orphan
  /-- After the round that settles it, it stays where it is and does not wait again. -/
  settled {r r' : Repair n m} {v : Fin n} {orphans : Deque (Fin n)} :
    Repair.Visited T S (.begin f) r → r.forest.orphans.popFront? = some (v, orphans) →
      Repair.Visited T S (Repair.round T S r).state r' →
      r'.forest.place v = (Repair.round T S r).state.forest.place v
        ∧ r'.forest.link? v ≠ some .orphan ∧ v ∉ r'.forest.orphans.toList
  /-- A node whose chain reaches a terminal stays where it is. -/
  place_eq {v : Fin n} {d : Nat} : f.Depth T v d → (f.adopt T S).forest.place v = f.place v
  /-- Every node of a tree hangs from the same terminal in the end, or it is free and no node
  hangs from it. -/
  hangs_or_free {v : Fin n} {s : Side} : f.side? v = some s →
    (f.adopt T S).forest.Hangs T S s v
      ∨ (f.adopt T S).forest.place v = .free
        ∧ ∀ u a, (f.adopt T S).forest.link? u = some (.arc a) → T.head a ≠ v
  /-- A free node stays free. -/
  free {v : Fin n} : f.place v = .free → (f.adopt T S).forest.place v = .free
  /-- No node changes from one tree to the other. -/
  side? {v : Fin n} {s : Side} : f.side? v = some s →
    (f.adopt T S).forest.side? v = some s ∨ (f.adopt T S).forest.side? v = none

/-- **Every adoption pass does what is said of it.** -/
theorem Mending.adopts (hf : f.Mending T S current none) : f.Adopts T S := by
  have hbegin : (Repair.begin f).forest.Mending T S current none := hf
  have hsound := hf.adopt_sound
  obtain ⟨-, -, hmended⟩ := Repair.run_mending T S (.begin f) hbegin
  have hside {v : Fin n} {s : Side} (hv : f.side? v = some s) :
      (f.adopt T S).forest.side? v = some s ∨ (f.adopt T S).forest.side? v = none :=
    (hmended.side? v).imp_left fun h => h.trans hv
  refine
    { ends := Repair.ends_round T S (.begin f)
      orphans_eq_nil := hsound.orphans_eq_nil
      link?_ne_orphan := hsound.link?_ne_orphan
      popped := fun hr hpop => ((hr.mending hbegin).1.pop hpop).1
      settled := fun {r r' v orphans} hr hpop hr' => ?_
      place_eq := hmended.place
      hangs_or_free := fun {v s} hv => ?_
      free := fun hv => ?_
      side? := hside }
  · -- the round has settled the node, and nothing later moves a settled node
    have hmending := (hr.mending hbegin).1
    have hround := (Repair.state_round_mending hmending).1
    have hsettled := Repair.state_round_settled hmending hpop
    obtain ⟨hlater, hstep⟩ := hr'.mending hround
    have horphan := (hstep.settled hsettled).link?_ne_orphan
    exact ⟨hstep.place_eq hsettled, horphan, fun hmem =>
      horphan ((hlater.listed.mem_iff v).1 hmem).1⟩
  · -- a mended forest is sound, so that every node that is still in a tree has a depth
    rcases hside hv with hsame | hnone
    · obtain ⟨d, hd⟩ := hsound.exists_depth (by rw [hsame]; exact Option.some_ne_none s)
      exact .inl (hd.hangs hsound.linked hsame)
    · exact .inr ⟨place_eq_free_iff.2 hnone, fun u a => hsound.linked.head_ne_of_free hnone⟩
  · rw [place_eq_free_iff] at hv ⊢
    exact hmended.side?_eq_none hv

end Forest

end MinCut
