import MinCut.Forest.Basic
import Mathlib.Data.Fintype.Card

/-!
# Chains of links

Every link leads from a node to its parent, so a node in a tree starts a
chain: its own link, its parent's, and so on. A chain that ends does so at a
terminal or at an orphan, and the two ends are kept apart here. `f.Depth T v d`
says that the chain of `v` reaches a terminal with its `d`-th link, and
`f.Adrift T v` that it runs into an orphan. No chain does both
(`Depth.not_adrift`), and a depth is a number the node alone decides
(`Depth.unique`). A chain that goes round in circles does neither.

The search changes links all the time, but only links of nodes that have no
depth: free nodes are attached, orphans are adopted or released, and children
of a released orphan are cut off. Two facts carry every invariant of the trees
over such changes. A depth survives them (`Depth.congr`). And a chain that
ended still ends (`Ends.of_change`), provided that what has changed has been
hung from a node with a depth or made an orphan.

A depth is a number of links and not of arcs: a root is at depth one, since it hangs from its
terminal by a link. No two nodes of one chain have the same depth, so depths do not exceed the
number of nodes (`Depth.le_card`), which is why a walk with that bound never runs out of it.
-/

namespace MinCut

/-- A place that has been given a link has that link. -/
theorem Place.eq_of_relink {m : Nat} {p : Place m} {k l : Link m} {s : Side}
    (h : p.relink k = .tree s l) : l = k := by
  cases p with
  | free => exact absurd h (by simp [Place.relink])
  | tree r j => exact (Place.tree.inj h).2.symm

namespace Forest

variable {n m : Nat} {T : Topology n m} {f g : Forest n m}

/-! ## Places

The place of a node decides its tree and its link together. -/

/-- Where a node is. -/
def place (f : Forest n m) (v : Fin n) : Place m := (f.label v).place

/-- The tree of a node can be told from its place. -/
theorem side?_eq (f : Forest n m) (v : Fin n) : f.side? v = (f.place v).side? := rfl

/-- Its link can be told from its place, too. -/
theorem link?_eq (f : Forest n m) (v : Fin n) : f.link? v = (f.place v).link? := rfl

/-- A node that hangs somewhere is in the tree where it hangs. -/
theorem side?_of_place {v : Fin n} {s : Side} {l : Link m} (h : f.place v = .tree s l) :
    f.side? v = some s :=
  congrArg Place.side? h

/-- It has the link by which it hangs. -/
theorem link?_of_place {v : Fin n} {s : Side} {l : Link m} (h : f.place v = .tree s l) :
    f.link? v = some l :=
  congrArg Place.link? h

/-- A node has a link exactly if it is in a tree. -/
theorem link?_eq_none_iff {v : Fin n} : f.link? v = none ↔ f.side? v = none := by
  rw [side?_eq, link?_eq]
  cases f.place v <;> simp

/-- A node with a link is in a tree. -/
theorem side?_ne_none_of_link? {v : Fin n} {l : Link m} (h : f.link? v = some l) :
    f.side? v ≠ none := by
  rw [Ne, ← link?_eq_none_iff, h]
  exact Option.some_ne_none l

/-- A node with a link is in the tree of some side, by that link. -/
theorem exists_place_of_link? {v : Fin n} {l : Link m} (h : f.link? v = some l) :
    ∃ s, f.place v = .tree s l := by
  rw [link?_eq] at h
  cases hp : f.place v with
  | free =>
    rw [hp] at h
    exact absurd h (by simp)
  | tree s l' =>
    rw [hp] at h
    exact ⟨s, congrArg (Place.tree s) (Option.some.inj h)⟩

/-- A node in the tree of a side hangs there by some link. -/
theorem exists_place_of_side? {v : Fin n} {s : Side} (h : f.side? v = some s) :
    ∃ l, f.place v = .tree s l := by
  rw [side?_eq] at h
  cases hp : f.place v with
  | free =>
    rw [hp] at h
    exact absurd h (by simp)
  | tree s' l =>
    rw [hp] at h
    exact ⟨l, congrArg (Place.tree · l) (Option.some.inj h)⟩

/-- A change of one label shows in no part of any label that it leaves alone. -/
theorem label_update_congr {β : Type} (part : Label m → β) {change : Label m → Label m}
    (h : ∀ l, part (change l) = part l) (f : Forest n m) (v w : Fin n) :
    part ((f.update v change).label w) = part (f.label w) := by
  rw [label_update]
  split
  · rename_i hw
    rw [hw, h]
  · rfl

/-- Cutting a node off shows in its link only. -/
theorem label_sever_congr {β : Type} (part : Label m → β)
    (h : ∀ l p, part { l with place := p } = part l) (f : Forest n m) (v w : Fin n) :
    part ((f.sever v).label w) = part (f.label w) :=
  label_update_congr part (fun l => h l _) f v w

/-- Attaching a node gives it a place and moves no other node. -/
theorem place_attach (f : Forest n m) (v w : Fin n) (s : Side) (l : Link m) (t d : Nat) :
    (f.attach v s l t d).place w = if w = v then .tree s l else f.place w := by
  unfold place
  rw [label_attach]
  split <;> rfl

/-- Releasing a node takes away its place and that of no other node. -/
theorem place_release (f : Forest n m) (v w : Fin n) :
    (f.release v).place w = if w = v then .free else f.place w := by
  unfold place
  rw [label_release]
  split <;> rfl

/-- Cutting a node off leaves it in its tree, but as an orphan. -/
theorem place_sever (f : Forest n m) (v w : Fin n) :
    (f.sever v).place w = if w = v then (f.place v).relink .orphan else f.place w := by
  unfold place
  rw [label_sever]
  split <;> rfl

@[simp] theorem place_mark (f : Forest n m) (v w : Fin n) (d : Nat) :
    (f.mark v d).place w = f.place w :=
  label_update_congr Label.place (fun _ => by rfl) f v w

@[simp] theorem place_flag (f : Forest n m) (v w : Fin n) (b : Bool) :
    (f.flag v b).place w = f.place w :=
  label_update_congr Label.place (fun _ => by rfl) f v w

/-- Activating a node flags it, and no label shows whether it is queued. -/
theorem label_activate_eq_flag (f : Forest n m) (v w : Fin n) :
    (f.activate v).label w = (f.flag v true).label w := by
  rw [label_activate, label_flag]

@[simp] theorem place_activate (f : Forest n m) (v w : Fin n) :
    (f.activate v).place w = f.place w := by
  unfold place
  rw [label_activate_eq_flag]
  exact f.place_flag v w true

/-! ## Depth

A depth and being adrift are both defined by induction along the links, and each proof about them is
an induction on the chain. What keeps a chain as it is are conditions on the links of its own nodes,
which have depths themselves (`Forest.Depth.congr`). -/

/-- **The chain of a node reaches a terminal** with its `d`-th link. A chain that goes round in
circles has no depth, so this also says that there is no circle on the way. -/
inductive Depth (T : Topology n m) (f : Forest n m) : Fin n → Nat → Prop
  /-- The node is a root. -/
  | root {v : Fin n} (h : f.link? v = some .terminal) : Depth T f v 1
  /-- The node is one link further away than its parent. -/
  | child {v : Fin n} {a : Arc m} {d : Nat} (h : f.link? v = some (.arc a))
      (up : Depth T f (T.head a) d) : Depth T f v (d + 1)

/-- **The chain of a node runs into an orphan**, which may be the node itself. Such a node is cut
off from its terminal, though it is still in its tree. -/
inductive Adrift (T : Topology n m) (f : Forest n m) : Fin n → Prop
  /-- The node is an orphan. -/
  | orphan {v : Fin n} (h : f.link? v = some .orphan) : Adrift T f v
  /-- The parent's chain runs into an orphan. -/
  | child {v : Fin n} {a : Arc m} (h : f.link? v = some (.arc a))
      (up : Adrift T f (T.head a)) : Adrift T f v

namespace Depth

variable {v : Fin n} {d e : Nat}

/-- Only a node in a tree has a depth. -/
theorem side?_ne_none (h : f.Depth T v d) : f.side? v ≠ none := by
  intro hnone
  rw [← link?_eq_none_iff] at hnone
  cases h with
  | root hl => exact absurd (hnone.symm.trans hl) (by simp)
  | child hl _ => exact absurd (hnone.symm.trans hl) (by simp)

/-- The parent of a node is one link nearer to the terminal. -/
theorem parent {a : Arc m} (h : f.Depth T v d) (hl : f.link? v = some (.arc a)) :
    ∃ e, d = e + 1 ∧ f.Depth T (T.head a) e := by
  cases h with
  | root hr => exact absurd (hr.symm.trans hl) (by simp)
  | child hc up =>
    obtain rfl : _ = a := by simpa using hc.symm.trans hl
    exact ⟨_, rfl, up⟩

/-- **A node has one depth.** -/
theorem unique (h : f.Depth T v d) (h' : f.Depth T v e) : d = e := by
  induction h generalizing e with
  | root hl =>
    cases h' with
    | root _ => rfl
    | child hc _ => exact absurd (hl.symm.trans hc) (by simp)
  | child hl _ ih =>
    obtain ⟨e', rfl, up⟩ := h'.parent hl
    rw [ih up]

/-- No node with a depth is its own parent. -/
theorem head_ne {a : Arc m} (h : f.Depth T v d) (hl : f.link? v = some (.arc a)) :
    T.head a ≠ v := by
  intro hv
  obtain ⟨e, rfl, up⟩ := h.parent hl
  rw [hv] at up
  exact absurd (h.unique up) (Nat.succ_ne_self e)

/-- **No chain reaches a terminal and an orphan**, since each node has one link only and both ends
of a chain are told by the link. -/
theorem not_adrift (h : f.Depth T v d) : ¬f.Adrift T v := by
  induction h with
  | root hl =>
    intro had
    cases had with
    | orphan ho => exact absurd (hl.symm.trans ho) (by simp)
    | child hc _ => exact absurd (hl.symm.trans hc) (by simp)
  | child hl _ ih =>
    intro had
    cases had with
    | orphan ho => exact absurd (hl.symm.trans ho) (by simp)
    | child hc up =>
      obtain rfl : _ = _ := by simpa using hl.symm.trans hc
      exact ih up

/-- A node with a depth is no orphan itself. -/
theorem not_orphan (h : f.Depth T v d) : f.link? v ≠ some .orphan := fun ho =>
  h.not_adrift (.orphan ho)

/-- **A depth survives** whatever happens to nodes without one: all nodes on the way up have depths
themselves, so none of their links has changed. -/
theorem congr (hfg : ∀ u e, f.Depth T u e → g.link? u = f.link? u) (h : f.Depth T v d) :
    g.Depth T v d := by
  induction h with
  | root hl => exact .root ((hfg _ _ (.root hl)).trans hl)
  | child hl up ih => exact .child ((hfg _ _ (.child hl up)).trans hl) ih

/-- On the way up from a node every smaller depth is passed. -/
theorem exists_of_le (h : f.Depth T v d) {k : Nat} (hk : 0 < k) (hkd : k ≤ d) :
    ∃ u, f.Depth T u k := by
  induction h with
  | @root v hl =>
    obtain rfl : k = 1 := by omega
    exact ⟨v, .root hl⟩
  | @child v a d hl up ih =>
    rcases Nat.lt_or_ge d k with hlt | hle
    · obtain rfl : k = d + 1 := by omega
      exact ⟨v, .child hl up⟩
    · exact ih hle

/-- **Depths stay within the number of nodes**, since the nodes on the way up
all have different ones. -/
theorem le_card (h : f.Depth T v d) : d ≤ n := by
  have hex (k : Fin d) : ∃ u, f.Depth T u (k + 1) :=
    h.exists_of_le (Nat.succ_pos _) k.isLt
  -- a node for each depth on the way up, and none of them for two
  choose node hnode using hex
  have hinj : Function.Injective node := by
    intro i j hij
    have hi := hnode i
    rw [hij] at hi
    exact Fin.ext (Nat.succ.inj (hi.unique (hnode j)))
  have hcard := Fintype.card_le_of_injective node hinj
  rwa [Fintype.card_fin, Fintype.card_fin] at hcard

end Depth

/-- Whatever is adrift is adrift because of an orphan. -/
theorem Adrift.exists_orphan {v : Fin n} (h : f.Adrift T v) : ∃ u, f.link? u = some .orphan := by
  induction h with
  | @orphan v ho => exact ⟨v, ho⟩
  | child _ _ ih => exact ih

/-- Whatever is adrift stays so as long as no link changes. -/
theorem Adrift.congr {v : Fin n} (hfg : ∀ u, g.link? u = f.link? u) (h : f.Adrift T v) :
    g.Adrift T v := by
  induction h with
  | orphan ho => exact .orphan ((hfg _).trans ho)
  | child hl _ ih => exact .child ((hfg _).trans hl) ih

/-- The chain of a node ends, at a terminal or at an orphan. This is all that is required of a chain
while the trees are in pieces. -/
def Ends (T : Topology n m) (f : Forest n m) (v : Fin n) : Prop :=
  (∃ d, f.Depth T v d) ∨ f.Adrift T v

namespace Ends

variable {v : Fin n} {a : Arc m}

/-- A chain that reaches a terminal ends. -/
theorem of_depth {d : Nat} (h : f.Depth T v d) : f.Ends T v := .inl ⟨d, h⟩

/-- The chain of an orphan ends where it begins. -/
theorem of_orphan (h : f.link? v = some .orphan) : f.Ends T v := .inr (.orphan h)

/-- The chain of a child goes on where that of its parent does. -/
theorem child (hl : f.link? v = some (.arc a)) (up : f.Ends T (T.head a)) : f.Ends T v := by
  rcases up with ⟨d, hd⟩ | had
  · exact .inl ⟨d + 1, .child hl hd⟩
  · exact .inr (.child hl had)

/-- **A chain that ends still ends**, if every link that has changed belongs to a node that now has
a depth or is now an orphan. Following the old chain, one comes to the first node with a changed
link, and from there the new chain ends. -/
theorem of_change
    (hfg : ∀ u, g.link? u = f.link? u ∨ g.link? u = some .orphan ∨ ∃ d, g.Depth T u d)
    (h : f.Ends T v) : g.Ends T v := by
  rcases h with ⟨d, hd⟩ | had
  · -- the chain reached a terminal
    induction hd with
    | @root v hl =>
      rcases hfg v with hsame | hor | hd
      · exact of_depth (.root (hsame.trans hl))
      · exact of_orphan hor
      · exact .inl hd
    | @child v a d hl _ ih =>
      rcases hfg v with hsame | hor | hd
      · exact child (hsame.trans hl) ih
      · exact of_orphan hor
      · exact .inl hd
  · -- the chain ran into an orphan
    induction had with
    | @orphan v ho =>
      rcases hfg v with hsame | hor | hd
      · exact of_orphan (hsame.trans ho)
      · exact of_orphan hor
      · exact .inl hd
    | @child v a hl _ ih =>
      rcases hfg v with hsame | hor | hd
      · exact child (hsame.trans hl) ih
      · exact of_orphan hor
      · exact .inl hd

end Ends

end Forest

end MinCut
