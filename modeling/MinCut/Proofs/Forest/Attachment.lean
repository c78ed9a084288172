import MinCut.Proofs.Forest.Invariant

/-!
# Hanging nodes into the trees

Growth hangs free nodes into a tree and adoption hangs orphans back. Both use a
*foothold*: the terminal, while the node has capacity left there, or an arc to a
node of the tree that has a depth and to which flow can run. Since the node that
is attached has no depth before, nothing that had one depends on it, and this is
all the two steps need to have in common (`Linked.attach`, `Stamped.attach`).

The argument for the links is the same for both. What hung from its parent before does so still, and
the new link is as it should be by what a foothold is. Only the ends of chains need care: a chain
may have run into the orphan that is adopted, and then it ends where the new link leads.
-/

namespace MinCut

namespace Forest

variable {n m : Nat} {T : Topology n m} {S : Support n m} {f g : Forest n m}
variable {v : Fin n} {s : Side} {l : Link m} {d t e : Nat}

/-- **A link by which a node can hang** in the tree of a side, with the depth it
has then. -/
inductive Foothold (T : Topology n m) (S : Support n m) (f : Forest n m) (v : Fin n)
    (s : Side) : Link m → Nat → Prop
  /-- The terminal, while the node has capacity left there. -/
  | terminal (h : S.terminal v = some s) : Foothold T S f v s .terminal 1
  /-- An arc to a node of the tree that has a depth itself. -/
  | arc {a : Arc m} {d : Nat} (tail : T.tail a = v) (head : f.side? (T.head a) = some s)
      (live : S.live s a = true) (depth : f.Depth T (T.head a) d) :
      Foothold T S f v s (.arc a) (d + 1)

/-- The links after a node has been attached. -/
theorem link?_attach (f : Forest n m) (v w : Fin n) (s : Side) (l : Link m) (t d : Nat) :
    (f.attach v s l t d).link? w = if w = v then some l else f.link? w := by
  rw [link?_eq, place_attach]
  split <;> rfl

/-- A node is active after the attachment exactly if it was before. -/
theorem active_attach (f : Forest n m) (v w : Fin n) (s : Side) (l : Link m) (t d : Nat) :
    ((f.attach v s l t d).label w).active = (f.label w).active :=
  label_update_congr Label.active (fun _ => by rfl) f v w

/-- An orphan has no depth. -/
theorem not_depth_of_orphan (hv : f.place v = .tree s .orphan) (k : Nat) :
    ¬f.Depth T v k := fun hk =>
  hk.not_orphan (link?_of_place hv)

/-- A foothold is no orphan's link. -/
theorem Foothold.ne_orphan (h : f.Foothold T S v s l d) : l ≠ .orphan := by
  cases h <;> simp

/-- Attaching a node without a depth keeps all depths. -/
theorem Depth.attach {w : Fin n} {k : Nat} (hv : ∀ k, ¬f.Depth T v k) (h : f.Depth T w k) :
    (f.attach v s l t e).Depth T w k := by
  refine h.congr fun u k hu => ?_
  rw [link?_attach, if_neg]
  -- the node that is attached is on no chain with a depth
  rintro rfl
  exact hv k hu

/-- A node that has been attached has the depth of its foothold. -/
theorem Foothold.depth_attach (hl : f.Foothold T S v s l d) (hv : ∀ k, ¬f.Depth T v k) :
    (f.attach v s l t e).Depth T v d := by
  have hself : (f.attach v s l t e).link? v = some l := by
    rw [link?_attach, if_pos rfl]
  cases hl with
  | terminal _ => exact .root hself
  | arc _ _ _ hdepth => exact .child hself (hdepth.attach hv)

/-- A node that is in a tree after one has been attached is that node or was there
before. -/
theorem place_of_attach {w : Fin n} {r : Side} {k : Link m}
    (hw : (f.attach v s l t e).place w = .tree r k) :
    w = v ∧ r = s ∧ k = l ∨ f.place w = .tree r k := by
  rw [place_attach] at hw
  split at hw
  · rename_i h
    cases hw
    exact .inl ⟨h, rfl, rfl⟩
  · exact .inr hw

/-- **Hanging a node from a foothold** keeps every link. The node is free before or an orphan of the
same tree, so that no node leaves the tree it is in, and parents are still where their children are.
-/
theorem Linked.attach (hf : f.Linked T S) (hl : f.Foothold T S v s l d)
    (hv : ∀ k, ¬f.Depth T v k) (hside : f.side? v = none ∨ f.side? v = some s) :
    (f.attach v s l t e).Linked T S := by
  -- every node of a tree is still in it
  have hgrow {w : Fin n} {r : Side} (hw : f.side? w = some r) :
      (f.attach v s l t e).side? w = some r := by
    rw [side?_attach]
    split
    · rename_i h
      subst h
      rcases hside with hfree | hsame
      · exact absurd (hfree.symm.trans hw) (by simp)
      · exact hsame.symm.trans hw
    · exact hw
  refine ⟨fun {w r} hw => ?_, fun {w r a} hw => ?_, fun {w r a} hw => ?_,
    fun {w r a} hw => ?_, fun {w} hw => ?_⟩
  · rcases place_of_attach hw with ⟨rfl, rfl, rfl⟩ | hold
    · cases hl with
      | terminal ht => exact ht
    · exact hf.terminal hold
  · rcases place_of_attach hw with ⟨rfl, rfl, rfl⟩ | hold
    · cases hl with
      | arc htail _ _ _ => exact htail
    · exact hf.tail hold
  · rcases place_of_attach hw with ⟨rfl, rfl, rfl⟩ | hold
    · cases hl with
      | arc _ hhead _ _ => exact hgrow hhead
    · exact hgrow (hf.head hold)
  · rcases place_of_attach hw with ⟨rfl, rfl, rfl⟩ | hold
    · cases hl with
      | arc _ _ hlive _ => exact hlive
    · exact hf.live hold
  · by_cases h : w = v
    · subst h
      exact .of_depth (hl.depth_attach hv)
    · rw [side?_attach, if_neg h] at hw
      -- a chain that ran into the node goes on from there to the terminal
      refine (hf.ends hw).of_change fun u => ?_
      by_cases hu : u = v
      · subst hu
        exact .inr (.inr ⟨d, hl.depth_attach hv⟩)
      · refine .inl ?_
        rw [link?_attach, if_neg hu]

/-- **Stamps stay right** when a node is attached with an old stamp, or with its
depth. -/
theorem Stamped.attach (hf : f.Stamped T) (hl : f.Foothold T S v s l d)
    (hv : ∀ k, ¬f.Depth T v k) (ht : t ≤ f.time) (he : t = f.time → e = d) :
    (f.attach v s l t e).Stamped T := by
  refine ⟨fun w => ?_, fun {w} hw hstamp => ?_⟩
  · rw [label_attach]
    split
    · exact ht
    · exact hf.stamp_le w
  · rw [label_attach] at hstamp ⊢
    -- the node itself is stamped now only if its depth is noted, and other depths do not change
    by_cases h : w = v
    · subst h
      rw [if_pos rfl] at hstamp ⊢
      rw [he hstamp]
      exact hl.depth_attach hv
    · rw [side?_attach, if_neg h] at hw
      rw [if_neg h] at hstamp ⊢
      exact (hf.depth hw hstamp).attach hv

end Forest

end MinCut
