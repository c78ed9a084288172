import MinCut.Proofs.Forest.Loops
import Mathlib.Logic.Relation

/-!
# How the line of orphans grows

An orphan that is adopted leaves the line, and the rest of it stays as it is. An orphan that is
released leaves its children behind, and they join the line at the end. They are found among the
other ends of the arcs that leave the released node. Where several of these arcs lead to the same
child, the first of them cuts it off, and at the others it has no parent any more. So each child
joins once (`Repair.settle_relined`).

No link leads to a free node then, and every chain of links goes on to a node that has no parent,
which is a root or waits in the line (`Forest.Ends.exists_top`).

What has been cut off is told as a list (`Forest.Cuts`), since the order matters to the line, and it
is put together arc by arc. It has no repetitions because a node that has been cut off has no
parent, and it is complete because an expelled node has no child left.
-/

namespace MinCut

variable {n m : Nat} {T : Topology n m} {S : Support n m}

namespace Forest

variable {f g h : Forest n m} {current : Option (Fin n)} {u v : Fin n} {s : Side}
variable {cut cut' : List (Fin n)}

/-! ## Children -/

/-- A node hangs from another over an arc. -/
def Child (T : Topology n m) (f : Forest n m) (u v : Fin n) : Prop :=
  ∃ a, f.link? u = some (.arc a) ∧ T.head a = v

/-- **A chain that ends** has a last node, which is a root or an orphan. No other node is without a
parent. -/
theorem Ends.exists_top (hv : f.Ends T v) :
    ∃ u, Relation.ReflTransGen (f.Child T) v u
      ∧ (f.link? u = some .terminal ∨ f.link? u = some .orphan) := by
  rcases hv with ⟨d, hd⟩ | hadrift
  · induction hd with
    | @root v hl => exact ⟨v, .refl, .inl hl⟩
    | child hl _ ih =>
      obtain ⟨u, hchain, hu⟩ := ih
      exact ⟨u, .head ⟨_, hl, rfl⟩ hchain, hu⟩
  · induction hadrift with
    | @orphan v ho => exact ⟨v, .refl, .inr ho⟩
    | child hl _ ih =>
      obtain ⟨u, hchain, hu⟩ := ih
      exact ⟨u, .head ⟨_, hl, rfl⟩ hchain, hu⟩

/-! ## Cutting children off

An orphan that is released has its children put on the line, each of them once and in the order of
its arcs. A child that has been cut off is no child any more, so that a second arc to it finds
nothing to do (`Forest.Cuts.trans`). -/

/-- **Some children of a node have been cut off**, and they have joined the line. -/
structure Cuts (T : Topology n m) (v : Fin n) (f : Forest n m) (cut : List (Fin n))
    (g : Forest n m) : Prop where
  /-- They wait behind those who waited already. -/
  orphans_eq : g.orphans.toList = f.orphans.toList ++ cut
  /-- They were children of the node. -/
  child {u : Fin n} : u ∈ cut → f.Child T u v
  /-- They have lost their links, and no other node has. -/
  link? (u : Fin n) : u ∈ cut ∧ g.link? u = some .orphan ∨ u ∉ cut ∧ g.link? u = f.link? u

namespace Cuts

/-- Nothing has been cut off where neither links nor the line change. -/
theorem of_eq (hlink : ∀ u, g.link? u = f.link? u) (horphans : g.orphans = f.orphans) :
    Cuts T v f [] g where
  orphans_eq := by rw [horphans, List.append_nil]
  child hu := absurd hu List.not_mem_nil
  link? u := .inr ⟨List.not_mem_nil, hlink u⟩

/-- What is cut off later joins behind what has been cut off before, and it is something else, since
it still had a parent. -/
theorem trans (hfg : Cuts T v f cut g) (hgh : Cuts T v g cut' h) :
    Cuts T v f (cut ++ cut') h where
  orphans_eq := by rw [hgh.orphans_eq, hfg.orphans_eq, List.append_assoc]
  child {u} hu := by
    rcases List.mem_append.1 hu with hu | hu
    · exact hfg.child hu
    · obtain ⟨a, ha, hhead⟩ := hgh.child hu
      rcases hfg.link? u with ⟨-, ho⟩ | ⟨-, hsame⟩
      · exact absurd (ho.symm.trans ha) (by simp)
      · exact ⟨a, hsame.symm.trans ha, hhead⟩
  link? u := by
    rw [List.mem_append]
    rcases hgh.link? u with ⟨hmem, ho⟩ | ⟨hnot, hlater⟩
    · exact .inl ⟨.inr hmem, ho⟩
    · rcases hfg.link? u with ⟨hmem, ho⟩ | ⟨hnot', hsame⟩
      · exact .inl ⟨.inl hmem, hlater.trans ho⟩
      · exact .inr ⟨not_or.2 ⟨hnot', hnot⟩, hlater.trans hsame⟩

/-- A child is cut off. -/
theorem orphanBack {a : Arc m} (hu : f.link? u = some (.arc a)) (hhead : T.head a = v) :
    Cuts T v f [u] (f.orphanBack u) where
  orphans_eq := Deque.toList_pushBack f.orphans u
  child hw := by
    rw [List.mem_singleton.1 hw]
    exact ⟨a, hu, hhead⟩
  link? w := by
    show _ ∧ (f.sever u).link? w = _ ∨ _ ∧ (f.sever u).link? w = _
    rw [List.mem_singleton]
    by_cases hw : w = u
    · rw [hw]
      exact .inl ⟨rfl, link?_sever_self hu⟩
    · exact .inr ⟨hw, link?_sever_of_ne hw⟩

/-- **All children have been cut off** if the node has none afterwards. -/
theorem mem_iff (hfg : Cuts T v f cut g) (hnone : ∀ w, ¬g.Child T w v) (u : Fin n) :
    u ∈ cut ↔ f.Child T u v := by
  refine ⟨hfg.child, fun ⟨a, ha, hhead⟩ => ?_⟩
  rcases hfg.link? u with ⟨hmem, -⟩ | ⟨-, hsame⟩
  · exact hmem
  · -- a child that has kept its link is still there
    exact absurd ⟨a, hsame.trans ha, hhead⟩ (hnone u)

end Cuts

/-- Dealing with one arc out of an orphan cuts off its other end, if this is a child. -/
theorem exists_cuts_estrange (f : Forest n m) (v : Fin n) (a : Arc m) :
    ∃ cut, Cuts T v f cut (estrange T S s v f a) := by
  obtain ⟨g, hg, hcases⟩ := estrange_cases T S s v f a
  have hactive : Cuts T v f [] g := by
    rcases hg with rfl | rfl
    · exact .of_eq (fun _ => rfl) rfl
    · exact .of_eq (fun u => congrArg Place.link? (place_activate f _ u)) (orphans_activate f _)
  rcases hcases with hsame | ⟨hcut, up, hup, hchild⟩
  · rw [hsame]
    exact ⟨[], hactive⟩
  · rw [hcut]
    exact ⟨[] ++ [T.head a], hactive.trans (.orphanBack hup hchild)⟩

/-- So does dealing with one arc after the other. -/
theorem exists_cuts_foldl (f : Forest n m) (v : Fin n) (arcs : List (Arc m)) :
    ∃ cut, Cuts T v f cut (arcs.foldl (estrange T S s v) f) := by
  induction arcs generalizing f with
  | nil => exact ⟨[], .of_eq (fun _ => rfl) rfl⟩
  | cons a arcs ih =>
    obtain ⟨cut, hcut⟩ := f.exists_cuts_estrange (T := T) (S := S) (s := s) v a
    obtain ⟨cut', hcut'⟩ := ih (estrange T S s v f a)
    exact ⟨cut ++ cut', hcut.trans hcut'⟩

/-- **Expelling an orphan** adds its children to the line, each of them once. -/
theorem Mending.exists_cut_expel (hf : f.Mending T S current (some v))
    (hv : f.place v = .tree s .orphan) :
    ∃ cut, (f.expel T S s v).orphans.toList = f.orphans.toList ++ cut ∧ cut.Nodup
      ∧ ∀ u, u ∈ cut ↔ f.Child T u v := by
  obtain ⟨cut, hcut⟩ := f.exists_cuts_foldl (T := T) (S := S) (s := s) v (T.out v)
  obtain ⟨hgm, -, hgv, hparted⟩ := foldl_estrange_spec hf hv (T.out v)
  refine ⟨cut, hcut.orphans_eq, ?_, hcut.mem_iff fun w => ?_⟩
  · have hnodup := hgm.listed.nodup
    rw [hcut.orphans_eq] at hnodup
    exact (List.nodup_append.1 hnodup).2.1
  · rintro ⟨a, ha, hhead⟩
    exact hgm.linked.head_ne hgv (fun b hb => hparted b (Topology.mem_out.2 hb)) ha hhead

end Forest

namespace Repair

variable {r : Repair n m} {current : Option (Fin n)} {v : Fin n} {s : Side}

/-- **What settling an orphan does to the line**: nothing, if it is adopted, and if it is
released, its children join. -/
structure Relined (T : Topology n m) (v : Fin n) (f g : Forest n m) : Prop where
  /-- If the orphan is still in a tree, nothing has joined. -/
  adopted : g.side? v ≠ none → g.orphans = f.orphans
  /-- If it is free, its children have joined, each once. -/
  released : g.side? v = none → ∃ cut, g.orphans.toList = f.orphans.toList ++ cut ∧ cut.Nodup
    ∧ ∀ u, u ∈ cut ↔ f.Child T u v

/-- **Settling an orphan does this to the line.** -/
theorem settle_relined (hr : r.forest.Mending T S current (some v))
    (hv : r.forest.place v = .tree s .orphan) :
    Relined T v r.forest (settle T S s r v).forest := by
  obtain ⟨f, adopted, expelled⟩ := r
  -- an orphan that is adopted is in its tree, and nothing joins
  have hattach (g : Forest n m) (hg : g.orphans = f.orphans) (l : Link m) (t d : Nat) :
      Relined T v f (g.attach v s l t d) := by
    refine ⟨fun _ => hg, fun hnone => ?_⟩
    rw [Forest.side?_attach, if_pos rfl] at hnone
    cases hnone
  simp only [settle]
  split
  · exact hattach f rfl _ _ _
  · obtain ⟨halike, hstamped, -⟩ := Forest.bestParent_spec hr.linked hr.stamped v s
    split
    · rename_i g a d hbest
      rw [hbest] at halike
      exact hattach g halike.orphans _ _ _
    · rename_i g hbest
      rw [hbest] at halike hstamped
      -- looking for a parent in vain has changed no link
      obtain ⟨cut, horphans, hnodup, hmem⟩ :=
        (hr.of_alike halike hstamped).exists_cut_expel ((halike.place v).trans hv)
      refine ⟨fun htree => ?_, fun _ => ⟨cut, ?_, hnodup, fun u => ?_⟩⟩
      · rw [Forest.side?_expel, if_pos rfl] at htree
        exact absurd rfl htree
      · rw [horphans, halike.orphans]
      · rw [hmem, Forest.Child, Forest.Child, halike.link?]

/-- **A round takes the first orphan off the line**, and settles it. -/
theorem round_relined {orphans : Deque (Fin n)} (hr : r.forest.Mending T S current none)
    (hpop : r.forest.orphans.popFront? = some (v, orphans)) :
    Relined T v { r.forest with orphans } (round T S r).state.forest := by
  obtain ⟨hlink, hheld, -⟩ := hr.pop hpop
  obtain ⟨s, hplace⟩ := Forest.exists_place_of_link? hlink
  rw [round_of_orphan hpop hplace]
  exact settle_relined (r := { r with forest := { r.forest with orphans } }) hheld hplace

end Repair

end MinCut
