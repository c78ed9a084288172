import MinCut.Proofs.Forest.Chain

/-!
# What holds of a forest

The invariant of the trees, in six parts, each of which some step of the search
breaks for a while and mends again. Four of them are stated with the one node,
if any, that is excepted for the time being.

* `Forest.Linked`: every link holds, and every chain ends.
* `Forest.Stamped`: a distance noted at the present time is the depth.
* `Forest.Listed`: the line of orphans lists the orphans, but for the one taken
  off it last.
* `Forest.Waiting`: the nodes flagged active are those in the queue and the
  current one.
* `Forest.Quiet`: an inactive node has nothing to grow into, but for the one
  being scanned.
* `Forest.Claimed`: a node with capacity left at a terminal is in the tree of
  that terminal.

Between two turns of the search all six hold and no orphan is left, which is
`Forest.Sound`. During an adoption pass the six parts are `Forest.Mending`.

`Forest.Mended` compares two forests: it says what no step of an adoption pass
ever does to the trees, and it is transitive, so that it holds of whole passes.

The lemmas that carry the invariant from one state to the next are sorted by what a step changes,
not by the step. A step that moves no node keeps `Linked`, `Quiet` and `Claimed` as they are, one
that sets no flag keeps `Waiting`, and one that stamps no node keeps `Stamped`. So each step of the
search only has an argument to give for the parts that it touches, and cites the congruence lemma
for the others.
-/

namespace MinCut

namespace Forest

variable {n m : Nat}

/-- **Every link holds, and every chain ends.** Which links hold is a matter of the amounts, so this
speaks of the support that they leave. It is what makes a path of links one that flow can follow
from terminal to terminal. -/
structure Linked (T : Topology n m) (S : Support n m) (f : Forest n m) : Prop where
  /-- A root has capacity left at the terminal it hangs from. -/
  terminal {v : Fin n} {s : Side} : f.place v = .tree s .terminal → S.terminal v = some s
  /-- The arc of a link starts at the node whose link it is. -/
  tail {v : Fin n} {s : Side} {a : Arc m} : f.place v = .tree s (.arc a) → T.tail a = v
  /-- It leads to a node of the same tree. -/
  head {v : Fin n} {s : Side} {a : Arc m} :
    f.place v = .tree s (.arc a) → f.side? (T.head a) = some s
  /-- Flow can run over it. -/
  live {v : Fin n} {s : Side} {a : Arc m} : f.place v = .tree s (.arc a) → S.live s a = true
  /-- The chain of a node in a tree reaches a terminal or an orphan. -/
  ends {v : Fin n} : f.side? v ≠ none → f.Ends T v

/-- **A distance noted at the present time is the depth**, and no stamp is from
the future. -/
structure Stamped (T : Topology n m) (f : Forest n m) : Prop where
  /-- No stamp is from the future. -/
  stamp_le (v : Fin n) : (f.label v).stamp ≤ f.time
  /-- A node stamped now has the depth noted. -/
  depth {v : Fin n} : f.side? v ≠ none → (f.label v).stamp = f.time →
    f.Depth T v (f.label v).distance

/-- **The line of orphans lists the orphans**, each once, except one that has been taken off to be
settled. A round takes an orphan off before it looks for a parent, and only afterwards the node is
no orphan any more, which is why one node is excepted in between. -/
structure Listed (held : Option (Fin n)) (f : Forest n m) : Prop where
  /-- No orphan is listed twice. -/
  nodup : f.orphans.toList.Nodup
  /-- The orphans are listed, and nothing else. -/
  mem_iff (v : Fin n) : v ∈ f.orphans.toList ↔ f.link? v = some .orphan ∧ held ≠ some v

/-- **The active nodes are those in the queue and the current one**, which is
not in the queue. -/
structure Waiting (current : Option (Fin n)) (f : Forest n m) : Prop where
  /-- No node is queued twice. -/
  nodup : f.queue.toList.Nodup
  /-- The flag tells whether a node is queued or current. -/
  active_iff (v : Fin n) : (f.label v).active = true ↔ v ∈ f.queue.toList ∨ current = some v
  /-- The current node is not queued. -/
  not_queued {v : Fin n} : current = some v → v ∉ f.queue.toList

/-- **An inactive node has nothing to grow into**: wherever its tree could grow from it, there is a
node of its own tree. A node being scanned is excepted. When no node is active any more, this is
what says that the trees cannot grow, so that the search may stop. -/
def Quiet (T : Topology n m) (S : Support n m) (busy : Option (Fin n)) (f : Forest n m) :
    Prop :=
  ∀ ⦃v : Fin n⦄ ⦃s : Side⦄, f.side? v = some s → (f.label v).active = false →
    busy ≠ some v → ∀ ⦃a : Arc m⦄, T.tail a = v → S.live s a.sister = true →
      f.side? (T.head a) = some s

/-- **A node with capacity left at a terminal is in the tree of that
terminal.** -/
def Claimed (S : Support n m) (f : Forest n m) : Prop :=
  ∀ ⦃v : Fin n⦄ ⦃s : Side⦄, S.terminal v = some s → f.side? v = some s

/-- **The forest between two turns** of a search with the given current node, or while a node is
being scanned. There are no orphans then, so every chain reaches a terminal. -/
structure Sound (T : Topology n m) (S : Support n m) (current busy : Option (Fin n))
    (f : Forest n m) : Prop where
  linked : f.Linked T S
  stamped : f.Stamped T
  waiting : f.Waiting current
  quiet : f.Quiet T S busy
  claimed : f.Claimed S
  /-- No node has lost its link. -/
  link?_ne_orphan (v : Fin n) : f.link? v ≠ some .orphan
  /-- No node waits for adoption. -/
  orphans_eq_nil : f.orphans.toList = []

/-- **The forest in an adoption pass**, with the orphan that has been taken off the line, if any. It
differs from a sound forest in that there may be orphans, all of which are listed. -/
structure Mending (T : Topology n m) (S : Support n m) (current held : Option (Fin n))
    (f : Forest n m) : Prop where
  linked : f.Linked T S
  stamped : f.Stamped T
  listed : f.Listed held
  waiting : f.Waiting current
  quiet : f.Quiet T S none
  claimed : f.Claimed S

/-- **What mending leaves alone.** A pass only moves nodes whose chains do not reach a terminal, and
it takes nodes out of the trees but never into them. This is what allows the distances that it notes
to be trusted until its end. -/
structure Mended (T : Topology n m) (f g : Forest n m) : Prop where
  /-- Nodes whose chains reach a terminal stay where they are. -/
  place {v : Fin n} {d : Nat} : f.Depth T v d → g.place v = f.place v
  /-- No node joins a tree. -/
  side? (v : Fin n) : g.side? v = f.side? v ∨ g.side? v = none
  /-- No node is taken off the queue. -/
  active {v : Fin n} : (f.label v).active = true → (g.label v).active = true
  /-- No time passes. -/
  time : g.time = f.time

variable {T : Topology n m} {S : Support n m} {f g h : Forest n m}

/-! ## Mending -/

namespace Mended

/-- A step that does nothing mends. -/
theorem refl (f : Forest n m) : Mended T f f :=
  ⟨fun _ => rfl, fun _ => .inl rfl, fun ha => ha, rfl⟩

/-- Mending keeps depths. -/
theorem depth (hfg : Mended T f g) {v : Fin n} {d : Nat} (hd : f.Depth T v d) :
    g.Depth T v d :=
  hd.congr fun _ _ hu => congrArg Place.link? (hfg.place hu)

/-- **Mending goes on**: what two steps leave alone one after the other, they leave alone together.
The second step finds the depths that the first one has kept. -/
theorem trans (hfg : Mended T f g) (hgh : Mended T g h) : Mended T f h where
  place hd := (hgh.place (hfg.depth hd)).trans (hfg.place hd)
  side? v := by
    rcases hgh.side? v with hv | hv
    · rcases hfg.side? v with hv' | hv'
      · exact .inl (hv.trans hv')
      · exact .inr (hv.trans hv')
    · exact .inr hv
  active ha := hgh.active (hfg.active ha)
  time := hgh.time.trans hfg.time

end Mended

/-! ## Changes that keep an invariant -/

/-- **Cutting nodes off** keeps the other links, and every chain still ends.
Capacities may change meanwhile, as long as no other link loses what it needs. -/
theorem Linked.of_relink {S' : Support n m} (hf : f.Linked T S)
    (hfg : ∀ v, g.place v = f.place v ∨ g.place v = (f.place v).relink .orphan)
    (hterminal : ∀ v s, g.place v = .tree s .terminal → S.terminal v = some s →
      S'.terminal v = some s)
    (hlive : ∀ v s a, g.place v = .tree s (.arc a) → S.live s a = true →
      S'.live s a = true) :
    g.Linked T S' := by
  -- no node changes its tree, so the parents are still in the trees of their children
  have hside (v : Fin n) : g.side? v = f.side? v := by
    rw [side?_eq, side?_eq]
    rcases hfg v with hv | hv
    · rw [hv]
    · rw [hv, Place.side?_relink]
  -- a link other than that of an orphan is the one from before
  have hplace {v : Fin n} {s : Side} {l : Link m} (hl : l ≠ .orphan)
      (hv : g.place v = .tree s l) : f.place v = .tree s l := by
    rcases hfg v with hsame | hcut
    · exact hsame.symm.trans hv
    · exact absurd (Place.eq_of_relink (hcut.symm.trans hv)) hl
  have hlink (v : Fin n) : g.link? v = f.link? v ∨ g.link? v = some .orphan := by
    rw [link?_eq, link?_eq]
    rcases hfg v with hsame | hcut
    · exact .inl (congrArg Place.link? hsame)
    · rw [hcut]
      cases f.place v with
      | free => exact .inl rfl
      | tree s l => exact .inr rfl
  refine ⟨fun hv => hterminal _ _ hv (hf.terminal (hplace (by simp) hv)),
    fun hv => hf.tail (hplace (by simp) hv), fun hv => ?_,
    fun hv => hlive _ _ _ hv (hf.live (hplace (by simp) hv)), fun hv => ?_⟩
  · rw [hside]
    exact hf.head (hplace (by simp) hv)
  · -- a chain may be cut short, but then it runs into one of the new orphans
    rw [hside] at hv
    refine (hf.ends hv).of_change fun u => ?_
    rcases hlink u with hsame | hcut
    · exact .inl hsame
    · exact .inr (.inl hcut)

/-- A parent is in a tree. -/
theorem Linked.side?_head_ne_none (hf : f.Linked T S) {v : Fin n} {a : Arc m}
    (hv : f.link? v = some (.arc a)) : f.side? (T.head a) ≠ none := by
  obtain ⟨s, hplace⟩ := exists_place_of_link? hv
  rw [hf.head hplace]
  exact Option.some_ne_none s

/-- Links hold in any forest with the same nodes in the same places. -/
theorem Linked.of_place (hf : f.Linked T S) (hfg : ∀ v, g.place v = f.place v) :
    g.Linked T S :=
  hf.of_relink (fun v => .inl (hfg v)) (fun _ _ _ h => h) (fun _ _ _ _ h => h)

/-- Stamps stay right where nothing noted changes and no depth is lost. -/
theorem Stamped.congr (hf : f.Stamped T)
    (hstamp : ∀ v, (g.label v).stamp = (f.label v).stamp)
    (hdistance : ∀ v, (g.label v).distance = (f.label v).distance) (htime : g.time = f.time)
    (hside : ∀ v, g.side? v ≠ none → f.side? v ≠ none)
    (hdepth : ∀ v d, f.Depth T v d → g.Depth T v d) : g.Stamped T := by
  refine ⟨fun v => ?_, fun {v} hv hnow => ?_⟩
  · rw [hstamp, htime]
    exact hf.stamp_le v
  · rw [hstamp, htime] at hnow
    rw [hdistance]
    exact hdepth v _ (hf.depth (hside v hv) hnow)

/-- The same nodes wait where neither flags nor the queue change. -/
theorem Waiting.congr {current : Option (Fin n)} (hf : f.Waiting current)
    (hactive : ∀ v, (g.label v).active = (f.label v).active) (hqueue : g.queue = f.queue) :
    g.Waiting current := by
  refine ⟨?_, fun v => ?_, fun {v} hv => ?_⟩
  · rw [hqueue]
    exact hf.nodup
  · rw [hactive, hqueue]
    exact hf.active_iff v
  · rw [hqueue]
    exact hf.not_queued hv

/-- The same nodes are quiet where neither trees nor flags change. -/
theorem Quiet.congr {busy : Option (Fin n)} (hf : f.Quiet T S busy)
    (hside : ∀ v, g.side? v = f.side? v)
    (hactive : ∀ v, (g.label v).active = (f.label v).active) : g.Quiet T S busy := by
  intro v s hv hidle hbusy a ha hlive
  rw [hside] at hv ⊢
  rw [hactive] at hidle
  exact hf hv hidle hbusy ha hlive

/-- The same nodes are in the trees of their terminals where no tree changes. -/
theorem Claimed.congr (hf : f.Claimed S) (hside : ∀ v, g.side? v = f.side? v) : g.Claimed S :=
  fun v _ hv => (hside v).trans (hf hv)

/-! ## Before the search -/

/-- What is noted about a node that begins as a root. -/
theorem label_initial_of_some {v : Fin n} {s : Side} (hv : S.terminal v = some s) :
    (initial S).label v = (⟨.tree s .terminal, 0, 1, true⟩ : Label m) := by
  rw [label_initial, hv]

/-- What is noted about a node that begins outside both trees. -/
theorem label_initial_of_none {v : Fin n} (hv : S.terminal v = none) :
    (initial S).label v = (⟨.free, 0, 0, false⟩ : Label m) := by
  rw [label_initial, hv]

/-- A node is in the tree of the terminal where it has capacity left. -/
theorem side?_initial (S : Support n m) (v : Fin n) : (initial S).side? v = S.terminal v := by
  unfold Forest.side?
  cases hv : S.terminal v with
  | none => rw [label_initial_of_none hv, Place.side?_free]
  | some s => rw [label_initial_of_some hv, Place.side?_tree]

/-- Every node of a tree is a root, stamped with its depth and active. -/
theorem label_initial_of_side? {v : Fin n} (hv : (initial S).side? v ≠ none) :
    ∃ s, S.terminal v = some s
      ∧ (initial S).label v = (⟨.tree s .terminal, 0, 1, true⟩ : Label m) := by
  rw [side?_initial] at hv
  obtain ⟨s, hs⟩ := Option.ne_none_iff_exists'.1 hv
  exact ⟨s, hs, label_initial_of_some hs⟩

/-- **The forest before the search is sound.** Its nodes are roots or free, so that there is no link
to an arc yet, and every root is active. -/
theorem initial_sound (T : Topology n m) (S : Support n m) :
    (initial S).Sound T S none none := by
  -- every node that is in a tree hangs from its terminal
  have hplace {v : Fin n} {s : Side} {l : Link m} (hv : (initial S).place v = .tree s l) :
      l = .terminal ∧ S.terminal v = some s := by
    have hside : (initial S).side? v = some s := side?_of_place hv
    obtain ⟨r, hr, hlabel⟩ := label_initial_of_side? (by rw [hside]; exact Option.some_ne_none s)
    rw [place, hlabel] at hv
    cases hv
    exact ⟨rfl, hr⟩
  have hdepth {v : Fin n} (hv : (initial S).side? v ≠ none) :
      (initial S).Depth T v ((initial S).label v).distance := by
    obtain ⟨s, _, hlabel⟩ := label_initial_of_side? hv
    rw [hlabel]
    exact .root (link?_of_place (congrArg Label.place hlabel))
  -- there are no links to arcs, no orphans and no inactive nodes in the trees
  refine ⟨⟨fun hv => (hplace hv).2, fun hv => ?_, fun hv => ?_, fun hv => ?_,
      fun hv => .of_depth (hdepth hv)⟩, ⟨fun v => ?_, fun hv _ => hdepth hv⟩,
    ⟨?_, fun v => ?_, fun h => absurd h (by simp)⟩, fun v s hv hidle _ _ _ _ => ?_,
    fun v s hv => (side?_initial S v).trans hv, fun v hv => ?_, rfl⟩
  · exact absurd (hplace hv).1 (by simp)
  · exact absurd (hplace hv).1 (by simp)
  · exact absurd (hplace hv).1 (by simp)
  · rw [label_initial]
    cases S.terminal v <;> exact Nat.le_refl 0
  · show (Deque.ofList _).toList.Nodup
    rw [Deque.toList_ofList]
    exact (List.nodup_finRange n).filter _
  · show _ ↔ v ∈ (Deque.ofList _).toList ∨ none = some v
    rw [Deque.toList_ofList, label_initial]
    cases hv : S.terminal v <;> simp [hv]
  · obtain ⟨r, _, hlabel⟩ := label_initial_of_side? (by rw [hv]; exact Option.some_ne_none s)
    rw [hlabel] at hidle
    exact absurd hidle (by simp)
  · obtain ⟨s, hp⟩ := exists_place_of_link? hv
    exact absurd (hplace hp).1 (by simp)

end Forest

end MinCut
