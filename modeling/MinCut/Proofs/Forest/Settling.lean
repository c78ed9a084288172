import MinCut.Proofs.Forest.Adoption

/-!
# How much an adoption pass does

A pass settles no node twice. A node that is adopted has a depth from then on, and one
that is expelled stays out of the trees, so neither becomes an orphan again in the same
pass. What is left to do shows in the nodes that hang in a tree without a depth
(`Forest.unsettled`): none is ever added to them, and each round takes the node away that
it settles. Hence a pass adopts and expels no more nodes than there are, and
none is expelled twice (`Forest.Mending.adopt_counted`).
-/

namespace MinCut

open Finset

variable {n m : Nat} {T : Topology n m} {S : Support n m}

namespace Forest

variable {f g : Forest n m} {v : Fin n} {s : Side}

open Classical in
/-- The nodes that hang in a tree, but not from its terminal. -/
noncomputable def unsettled (T : Topology n m) (f : Forest n m) : Finset (Fin n) :=
  univ.filter fun v => f.side? v ≠ none ∧ ∀ d, ¬f.Depth T v d

open Classical in
/-- A node is unsettled if it is in a tree and has no depth. -/
theorem mem_unsettled : v ∈ f.unsettled T ↔ f.side? v ≠ none ∧ ∀ d, ¬f.Depth T v d :=
  mem_filter_univ v

/-- There are no more of them than nodes. -/
theorem card_unsettled_le (T : Topology n m) (f : Forest n m) : #(f.unsettled T) ≤ n := by
  have h := card_le_univ (f.unsettled T)
  rwa [Fintype.card_fin] at h

/-- An orphan is one of them. -/
theorem mem_unsettled_of_orphan (hv : f.place v = .tree s .orphan) : v ∈ f.unsettled T := by
  refine mem_unsettled.2 ⟨?_, not_depth_of_orphan hv⟩
  rw [side?_of_place hv]
  exact Option.some_ne_none s

/-- A node that is free stays free. -/
theorem Mended.side?_eq_none (hfg : Mended T f g) (hv : f.side? v = none) :
    g.side? v = none := by
  rcases hfg.side? v with h | h
  · exact h.trans hv
  · exact h

/-- **Mending unsettles no node.** -/
theorem Mended.unsettled_subset (hfg : Mended T f g) : g.unsettled T ⊆ f.unsettled T := by
  intro v hv
  obtain ⟨htree, hdepth⟩ := mem_unsettled.1 hv
  exact mem_unsettled.2 ⟨fun hnone => htree (hfg.side?_eq_none hnone),
    fun d hd => hdepth d (hfg.depth hd)⟩

end Forest

namespace Repair

variable {r r' : Repair n m} {current : Option (Fin n)} {v : Fin n} {s : Side}

/-- **What settling an orphan comes to**: it is adopted and has a depth, or it is expelled
and free. -/
theorem settle_cases (hr : r.forest.Mending T S current (some v))
    (hv : r.forest.place v = .tree s .orphan) :
    ((settle T S s r v).adopted = r.adopted + 1 ∧ (settle T S s r v).expelled = r.expelled
        ∧ ∃ d, (settle T S s r v).forest.Depth T v d)
      ∨ (settle T S s r v).adopted = r.adopted ∧ (settle T S s r v).expelled = v :: r.expelled
        ∧ (settle T S s r v).forest.side? v = none := by
  obtain ⟨f, adopted, expelled⟩ := r
  have hnone (k : Nat) : ¬f.Depth T v k := Forest.not_depth_of_orphan hv k
  simp only [settle]
  split
  · rename_i hterm
    exact .inl ⟨rfl, rfl, 1, (Forest.Foothold.terminal hterm).depth_attach hnone⟩
  · obtain ⟨halike, hstamped, hfoothold⟩ := Forest.bestParent_spec hr.linked hr.stamped v s
    split
    · rename_i g a d hbest
      rw [hbest] at halike hfoothold
      have hfoot : g.Foothold T S v s (.arc a) (d + 1) := (hfoothold rfl).of_alike halike.symm
      have hg (k : Nat) : ¬g.Depth T v k :=
        Forest.not_depth_of_orphan ((halike.place v).trans hv) k
      exact .inl ⟨rfl, rfl, d + 1, hfoot.depth_attach hg⟩
    · rename_i g hbest
      refine .inr ⟨rfl, rfl, ?_⟩
      rw [Forest.side?_expel, if_pos rfl]

/-- **What a pass has done is within what there was to do.** -/
structure Counted (T : Topology n m) (r : Repair n m) : Prop where
  /-- No node has been expelled twice. -/
  nodup : r.expelled.Nodup
  /-- The nodes expelled are free. -/
  side?_eq_none {v : Fin n} : v ∈ r.expelled → r.forest.side? v = none
  /-- The nodes settled and those that are not are no more than there are. -/
  count_le : r.adopted + r.expelled.length + #(r.forest.unsettled T) ≤ n

/-- A pass that has just begun has done nothing. -/
theorem begin_counted (T : Topology n m) (f : Forest n m) : (begin f).Counted T where
  nodup := List.nodup_nil
  side?_eq_none hv := absurd hv List.not_mem_nil
  count_le := (Nat.zero_add _).trans_le (f.card_unsettled_le T)

/-- A change that mends the forest and settles nothing keeps the count. -/
theorem Counted.mended (h : r.Counted T) {g : Forest n m} (hg : Forest.Mended T r.forest g) :
    (⟨g, r.adopted, r.expelled⟩ : Repair n m).Counted T where
  nodup := h.nodup
  side?_eq_none hv := hg.side?_eq_none (h.side?_eq_none hv)
  count_le := (Nat.add_le_add_left (card_le_card hg.unsettled_subset) _).trans h.count_le

/-- **Settling an orphan keeps the count**: a node is settled that was not before. -/
theorem Counted.settle (h : r.Counted T) (hr : r.forest.Mending T S current (some v))
    (hv : r.forest.place v = .tree s .orphan) : (settle T S s r v).Counted T := by
  have hmended := (settle_mending hr hv).2
  have hbefore : v ∈ r.forest.unsettled T := Forest.mem_unsettled_of_orphan hv
  have hfree {u : Fin n} (hu : u ∈ r.expelled) : (Repair.settle T S s r v).forest.side? u = none :=
    hmended.side?_eq_none (h.side?_eq_none hu)
  -- the node is unsettled before, so that there are fewer unsettled nodes if it is not one
  -- afterwards
  have hfall (hafter : v ∉ (Repair.settle T S s r v).forest.unsettled T) :
      #((Repair.settle T S s r v).forest.unsettled T) < #(r.forest.unsettled T) :=
    card_lt_card ((ssubset_iff_of_subset hmended.unsettled_subset).2 ⟨v, hbefore, hafter⟩)
  have hle := h.count_le
  rcases settle_cases hr hv with ⟨hadopted, hexpelled, d, hd⟩ | ⟨hadopted, hexpelled, hside⟩
  · -- it has been adopted
    have hcard := hfall fun hmem => (Forest.mem_unsettled.1 hmem).2 d hd
    refine ⟨?_, fun hu => hfree (hexpelled ▸ hu), ?_⟩
    · rw [hexpelled]
      exact h.nodup
    · rw [hadopted, hexpelled]
      omega
  · -- it has been expelled, and was not before, since it was in a tree
    have hcard := hfall fun hmem => (Forest.mem_unsettled.1 hmem).1 hside
    have hnew : v ∉ r.expelled := fun hmem =>
      (Forest.mem_unsettled.1 hbefore).1 (h.side?_eq_none hmem)
    refine ⟨?_, fun {u} hu => ?_, ?_⟩
    · rw [hexpelled]
      exact List.nodup_cons.2 ⟨hnew, h.nodup⟩
    · rw [hexpelled] at hu
      rcases List.mem_cons.1 hu with rfl | hu
      · exact hside
      · exact hfree hu
    · rw [hadopted, hexpelled, List.length_cons]
      omega

/-- **One round of a pass** keeps the count. -/
theorem Counted.round (h : r.Counted T) (hr : r.forest.Mending T S current none)
    (hround : round T S r = .more r') : r'.Counted T := by
  rcases round_cases hr with ⟨-, hdone⟩ | ⟨v, s, orphans, -, hplace, hheld, hpopped, hmore⟩
  · exact absurd (hdone.symm.trans hround) (by simp)
  · obtain rfl := Turn.more.inj (hmore.symm.trans hround)
    exact (h.mended hpopped).settle hheld hplace

/-- **A whole pass** keeps it. -/
theorem Counted.run (h : r.Counted T) (hr : r.forest.Mending T S current none) :
    (r.run T S).Counted T := by
  induction r using Repair.run.induct T S with
  | case1 r r' hround =>
    rw [run_of_done hround]
    obtain ⟨rfl, _⟩ := round_done hr hround
    exact h
  | case2 r r' hround ih =>
    rw [run_of_more hround]
    exact ih (h.round hr hround) (round_mending hr hround).1

end Repair

/-- **An adoption pass settles no node twice.** -/
theorem Forest.Mending.adopt_counted {f : Forest n m} {current : Option (Fin n)}
    (hf : f.Mending T S current none) : (f.adopt T S).Counted T :=
  (Repair.begin_counted T f).run hf

end MinCut
