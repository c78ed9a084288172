import MinCut.Proofs.Forest.Loops

/-!
# The nearest parent

A trace stops at the first node that has been stamped in the pass, and what it finds is what
following the chain to its end would find: the depth, if the chain reaches a terminal, and
nothing if it runs into an orphan (`Forest.trace_eq_some_iff`, `Forest.trace_eq_none_iff`).
It does not matter which nodes have been stamped before.

So the parent that an orphan is hung from is one among all footholds that the arcs out of it
offer. It is the nearest to the terminal, and the first of the nearest in the order of arcs
(`Forest.Nearest`). `Forest.Best` is the invariant of the search for it, over the arcs that
have been weighed: a later arc replaces an earlier one only if it is strictly nearer.
-/

namespace MinCut

variable {n m : Nat} {T : Topology n m} {S : Support n m}

namespace Forest

variable {f g : Forest n m} {v : Fin n} {s : Side} {a b : Arc m} {d e : Nat}

/-! ## Tracing finds the depth -/

/-- **A trace finds the depth of a node**, whatever has been stamped before. -/
theorem trace_eq_some_iff (hl : f.Linked T S) (hs : f.Stamped T) (hv : f.side? v ≠ none) :
    (trace T n f v).1 = some d ↔ f.Depth T v d := by
  constructor
  · exact (trace_spec hl hs n hv).2.2 d
  · intro hd
    obtain ⟨g, hg⟩ := hd.probed hs hd.le_card
    exact hg.fst_trace

/-- **It finds none for a node whose chain runs into an orphan**, and only then. -/
theorem trace_eq_none_iff (hl : f.Linked T S) (hs : f.Stamped T) (hv : f.side? v ≠ none) :
    (trace T n f v).1 = none ↔ f.Adrift T v := by
  constructor
  · intro hnone
    rcases hl.ends hv with ⟨d, hd⟩ | hadrift
    · rw [(trace_eq_some_iff hl hs hv).2 hd] at hnone
      exact absurd hnone (by simp)
    · exact hadrift
  · intro hadrift
    rw [(hadrift.ends_probe hs 0).2 n]

/-! ## Footholds

An arc offers a foothold if flow can run over it, and if the node at its other end is in the tree of
the orphan and has a depth. This does not change while distances are noted. -/

/-- A foothold over an arc is a neighbour of the same tree, to which flow can run, whose
chain reaches the terminal one link earlier. -/
theorem foothold_arc_iff : f.Foothold T S v s (.arc a) e
    ↔ T.tail a = v ∧ S.live s a = true ∧ f.side? (T.head a) = some s
      ∧ ∃ d, f.Depth T (T.head a) d ∧ e = d + 1 := by
  constructor
  · rintro ⟨⟩
    rename_i htail hhead hlive hdepth
    exact ⟨htail, hlive, hhead, _, hdepth, rfl⟩
  · rintro ⟨htail, hlive, hhead, d, hdepth, rfl⟩
    exact .arc htail hhead hlive hdepth

/-- The depth that an arc offers is that of its other end and one more, so there is only one. -/
theorem Foothold.unique (h : f.Foothold T S v s (.arc a) d)
    (h' : f.Foothold T S v s (.arc a) e) : d = e := by
  obtain ⟨_, _, _, k, hk, rfl⟩ := foothold_arc_iff.1 h
  obtain ⟨_, _, _, k', hk', rfl⟩ := foothold_arc_iff.1 h'
  rw [hk.unique hk']

/-- **The nearest parent** of a node and the depth that it has there: no foothold over an arc
is nearer, and none over an earlier arc is as near. -/
structure Nearest (T : Topology n m) (S : Support n m) (v : Fin n) (s : Side) (f : Forest n m)
    (a : Arc m) (d : Nat) : Prop where
  /-- The arc offers a foothold, at this depth. -/
  foothold : f.Foothold T S v s (.arc a) d
  /-- No foothold over an arc is nearer. -/
  le {b : Arc m} {e : Nat} : f.Foothold T S v s (.arc b) e → d ≤ e
  /-- Those over earlier arcs are further away. -/
  first : ∃ before after, T.out v = before ++ a :: after
    ∧ ∀ b ∈ before, ∀ e, f.Foothold T S v s (.arc b) e → d < e

/-- Which parent is the nearest is a matter of places only. -/
theorem Nearest.of_place (h : g.Nearest T S v s a d) (hfg : ∀ w, g.place w = f.place w) :
    f.Nearest T S v s a d := by
  obtain ⟨hfoothold, hle, before, after, harcs, hbefore⟩ := h
  have hgf (w : Fin n) : f.place w = g.place w := (hfg w).symm
  exact ⟨hfoothold.of_place hfg, fun hb => hle (hb.of_place hgf), before, after, harcs,
    fun b hb e he => hbefore b hb e (he.of_place hgf)⟩

/-- **The best foothold** that some arcs offer to a node: the first of the nearest ones, or
none if they offer none. -/
def Best (T : Topology n m) (S : Support n m) (v : Fin n) (s : Side) (f : Forest n m)
    (arcs : List (Arc m)) : Option (Arc m × Nat) → Prop
  | none => ∀ a ∈ arcs, ∀ e, ¬f.Foothold T S v s (.arc a) e
  | some (a, d) => f.Foothold T S v s (.arc a) (d + 1)
    ∧ ∃ before after, arcs = before ++ a :: after
      ∧ (∀ b ∈ before, ∀ e, f.Foothold T S v s (.arc b) e → d + 1 < e)
      ∧ ∀ b ∈ after, ∀ e, f.Foothold T S v s (.arc b) e → d + 1 ≤ e

/-- The best foothold that all arcs out of a node offer is over its nearest parent. -/
theorem Best.nearest (h : f.Best T S v s (T.out v) (some (a, d))) :
    f.Nearest T S v s a (d + 1) := by
  obtain ⟨hfoothold, before, after, harcs, hbefore, hafter⟩ := h
  refine ⟨hfoothold, fun {b e} hb => ?_, before, after, harcs, hbefore⟩
  have hmem : b ∈ T.out v := Topology.mem_out.2 (foothold_arc_iff.1 hb).1
  rw [harcs] at hmem
  rcases List.mem_append.1 hmem with hb' | hb'
  · exact (hbefore b hb' e hb).le
  · rcases List.mem_cons.1 hb' with rfl | hb'
    · exact (hfoothold.unique hb).le
    · exact hafter b hb' e hb

/-- All footholds are over arcs out of the node. -/
theorem Best.not_foothold (h : f.Best T S v s (T.out v) none) (a : Arc m) (e : Nat) :
    ¬f.Foothold T S v s (.arc a) e := fun ha =>
  h a (Topology.mem_out.2 (foothold_arc_iff.1 ha).1) e ha

/-! ## Weighing

The best parent so far is the first among the nearest of the footholds that have been weighed
(`Forest.Best`). By induction on the arcs it is so for all of them in the end, and settling an
orphan comes to one of three outcomes, depending on its terminal and its footholds. -/

variable {arcs : List (Arc m)} {best : Option (Arc m × Nat)}

/-- An arc that offers no foothold changes nothing. -/
theorem Best.snoc (h : f.Best T S v s arcs best)
    (ha : ∀ e, ¬f.Foothold T S v s (.arc a) e) : f.Best T S v s (arcs ++ [a]) best := by
  have hlast {b : Arc m} (hb : b ∈ [a]) (e : Nat) : ¬f.Foothold T S v s (.arc b) e := by
    rw [List.mem_singleton.1 hb]
    exact ha e
  match best, h with
  | none, h =>
    intro b hb e
    rcases List.mem_append.1 hb with hb | hb
    · exact h b hb e
    · exact hlast hb e
  | some (c, d), ⟨hfoothold, before, after, harcs, hbefore, hafter⟩ =>
    refine ⟨hfoothold, before, after ++ [a], by simp [harcs], hbefore, fun b hb e he => ?_⟩
    rcases List.mem_append.1 hb with hb | hb
    · exact hafter b hb e he
    · exact absurd he (hlast hb e)

/-- **An arc that offers a foothold** is better exactly if it is strictly nearer. -/
theorem Best.nearer (h : f.Best T S v s arcs best) (ha : f.Foothold T S v s (.arc a) (d + 1)) :
    f.Best T S v s (arcs ++ [a]) (nearer best a d) := by
  match best, h with
  | none, h =>
    refine ⟨ha, arcs, [], rfl, fun b hb e he => absurd he (h b hb e), fun b hb => ?_⟩
    exact absurd hb List.not_mem_nil
  | some (c, k), ⟨hfoothold, before, after, harcs, hbefore, hafter⟩ =>
    have hle {b : Arc m} {e : Nat} (hb : b ∈ arcs) (he : f.Foothold T S v s (.arc b) e) :
        k + 1 ≤ e := by
      rw [harcs] at hb
      rcases List.mem_append.1 hb with hb | hb
      · exact (hbefore b hb e he).le
      · rcases List.mem_cons.1 hb with rfl | hb
        · exact (hfoothold.unique he).le
        · exact hafter b hb e he
    by_cases hd : d < k
    · rw [Forest.nearer, if_pos hd]
      refine ⟨ha, arcs, [], rfl, fun b hb e he => ?_, fun b hb => absurd hb List.not_mem_nil⟩
      have := hle hb he
      omega
    · rw [Forest.nearer, if_neg hd]
      refine ⟨hfoothold, before, after ++ [a], by simp [harcs], hbefore, fun b hb e he => ?_⟩
      rcases List.mem_append.1 hb with hb | hb
      · exact hafter b hb e he
      · rw [List.mem_singleton.1 hb] at he
        have := ha.unique he
        omega

/-- Weighing one more arc. -/
theorem Best.weigh {state : Forest n m × Option (Arc m × Nat)}
    (h : f.Best T S v s arcs state.2) (hw : Weighed T S v s f state) (hl : f.Linked T S)
    (ha : T.tail a = v) : f.Best T S v s (arcs ++ [a]) (weigh T S s state a).2 := by
  obtain ⟨g, best⟩ := state
  have hlg : g.Linked T S := hl.of_place hw.alike.place
  simp only [Forest.weigh]
  split
  · rename_i hcand
    have htree : g.side? (T.head a) ≠ none := by
      rw [hcand.2]
      exact Option.some_ne_none s
    split
    · rename_i d g' htrace
      have hdepth := (trace_eq_some_iff hlg hw.stamped htree).1 (congrArg Prod.fst htrace)
      exact h.nearer ((Foothold.arc ha hcand.2 hcand.1 hdepth).of_alike hw.alike)
    · rename_i g' htrace
      have hadrift := (trace_eq_none_iff hlg hw.stamped htree).1 (congrArg Prod.fst htrace)
      refine h.snoc fun e he => ?_
      obtain ⟨_, _, _, k, hk, _⟩ := foothold_arc_iff.1 he
      exact (hw.alike.depth hk).not_adrift hadrift
  · rename_i hcand
    refine h.snoc fun e he => hcand ?_
    obtain ⟨_, hlive, hside, _⟩ := foothold_arc_iff.1 he
    exact ⟨hlive, (hw.alike.side? _).trans hside⟩

/-- **What looking for a parent comes to.** -/
theorem bestParent_best (hl : f.Linked T S) (hs : f.Stamped T) (v : Fin n) (s : Side) :
    f.Best T S v s (T.out v) (bestParent T S s f v).2 := by
  have hfold (before after : List (Arc m)) (harcs : T.out v = before ++ after)
      {state : Forest n m × Option (Arc m × Nat)} (hw : Weighed T S v s f state)
      (hbest : f.Best T S v s before state.2) :
      f.Best T S v s (T.out v) (after.foldl (Forest.weigh T S s) state).2 := by
    induction after generalizing before state with
    | nil =>
      rw [harcs, List.append_nil]
      exact hbest
    | cons a after ih =>
      have ha : T.tail a = v := Topology.mem_out.1 (by simp [harcs])
      exact ih (before ++ [a]) (by simp [harcs]) (hw.weigh hl ha) (hbest.weigh hw hl ha)
  exact hfold [] (T.out v) rfl (.nil hs) fun b hb => absurd hb List.not_mem_nil

end Forest

namespace Repair

variable {r : Repair n m} {current : Option (Fin n)} {v u : Fin n} {s : Side} {f : Forest n m}

/-- **A search for a distance in a pass** finds the depth that the node has before the
round. -/
theorem Asks.trace_iff (h : Asks T S r f u) (hr : r.forest.Mending T S current none) :
    (∀ d, (Forest.trace T n f u).1 = some d ↔ r.forest.Depth T u d)
      ∧ ((Forest.trace T n f u).1 = none ↔ r.forest.Adrift T u) := by
  obtain ⟨hplace, hstamped, htree⟩ := h.noted hr
  have hl := hr.linked.of_place hplace
  have hlink (v : Fin n) : f.link? v = r.forest.link? v := congrArg Place.link? (hplace v)
  refine ⟨fun d => (Forest.trace_eq_some_iff hl hstamped htree).trans ?_,
    (Forest.trace_eq_none_iff hl hstamped htree).trans ?_⟩
  · exact ⟨fun hd => hd.congr fun v _ _ => (hlink v).symm, fun hd => hd.congr fun v _ _ => hlink v⟩
  · exact ⟨fun hu => hu.congr fun v => (hlink v).symm, fun hu => hu.congr hlink⟩

/-- **What settling an orphan comes to** for which nothing is left at its terminal: it is
hung from its nearest parent, or it is released if there is none. -/
theorem settle_nearest (hr : r.forest.Mending T S current (some v))
    (hv : r.forest.place v = .tree s .orphan) (hterm : S.terminal v ≠ some s) :
    (∃ a d, r.forest.Nearest T S v s a d
        ∧ (settle T S s r v).forest.label v
          = ⟨.tree s (.arc a), r.forest.time, d, (r.forest.label v).active⟩
        ∧ (settle T S s r v).forest.Depth T v d
        ∧ (settle T S s r v).adopted = r.adopted + 1
        ∧ (settle T S s r v).expelled = r.expelled)
      ∨ (∀ a d, ¬r.forest.Foothold T S v s (.arc a) d)
        ∧ (settle T S s r v).forest.place v = .free
        ∧ (settle T S s r v).adopted = r.adopted
        ∧ (settle T S s r v).expelled = v :: r.expelled := by
  obtain ⟨f, adopted, expelled⟩ := r
  obtain ⟨halike, -, -⟩ := Forest.bestParent_spec hr.linked hr.stamped v s
  have hbest := Forest.bestParent_best hr.linked hr.stamped v s
  simp only [settle, if_neg hterm]
  split
  · rename_i g a d hparent
    rw [hparent] at halike hbest
    -- there is a parent
    have hnearest := hbest.nearest
    have hnone (k : Nat) : ¬g.Depth T v k :=
      Forest.not_depth_of_orphan ((halike.place v).trans hv) k
    refine .inl ⟨a, d + 1, hnearest, ?_,
      (hnearest.foothold.of_alike halike.symm).depth_attach hnone, rfl, rfl⟩
    rw [Forest.label_attach, if_pos rfl, halike.time, halike.active]
  · rename_i g hparent
    rw [hparent] at hbest
    -- there is none, and the node leaves its tree whatever becomes of its neighbours
    refine .inr ⟨hbest.not_foothold, ?_, rfl, rfl⟩
    unfold Forest.expel
    rw [Forest.place_release, if_pos rfl]

/-- **What has become of an orphan** after the round that settles it. -/
structure Outcome (T : Topology n m) (S : Support n m) (v : Fin n) (s : Side)
    (r r' : Repair n m) : Prop where
  /-- It is adopted exactly if an arc offers it a foothold. -/
  adopted_iff : (∃ a, r'.forest.place v = .tree s (.arc a))
    ↔ ∃ a d, r.forest.Foothold T S v s (.arc a) d
  /-- It is released otherwise. -/
  released_iff : r'.forest.place v = .free ↔ ¬∃ a d, r.forest.Foothold T S v s (.arc a) d
  /-- Its parent is the nearest one, and the distance noted is its depth. -/
  nearest {a : Arc m} : r'.forest.place v = .tree s (.arc a) →
    ∃ d, r.forest.Nearest T S v s a d
      ∧ r'.forest.label v
        = ⟨.tree s (.arc a), r.forest.time, d, (r.forest.label v).active⟩
      ∧ r'.forest.Depth T v d
  /-- An adoption is counted. -/
  adopted {a : Arc m} : r'.forest.place v = .tree s (.arc a) →
    r'.adopted = r.adopted + 1 ∧ r'.expelled = r.expelled
  /-- A release is noted down. -/
  released : r'.forest.place v = .free →
    r'.adopted = r.adopted ∧ r'.expelled = v :: r.expelled

/-- **A round settles the orphan it takes off the line.** -/
theorem round_outcome {orphans : Deque (Fin n)} (hr : r.forest.Mending T S current none)
    (hpop : r.forest.orphans.popFront? = some (v, orphans))
    (hv : r.forest.place v = .tree s .orphan) (hterm : S.terminal v ≠ some s) :
    Outcome T S v s r (round T S r).state := by
  have hsame (w : Fin n) : ({ r.forest with orphans } : Forest n m).place w = r.forest.place w :=
    rfl
  have hsettle := settle_nearest (r := { r with forest := { r.forest with orphans } })
    (hr.pop hpop).2.1 hv hterm
  rw [round_of_orphan hpop hv]
  dsimp only [Turn.state] at hsettle ⊢
  generalize settle T S s _ v = r' at hsettle ⊢
  rcases hsettle with ⟨a, d, hnearest, hlabel, hdepth, hadopted, hexpelled⟩
    | ⟨hnone, hfree, hadopted, hexpelled⟩
  · have hfoothold := hnearest.foothold.of_place hsame
    have hplace : r'.forest.place v = .tree s (.arc a) := congrArg Label.place hlabel
    have hnot : r'.forest.place v ≠ .free := by simp [hplace]
    refine ⟨⟨fun _ => ⟨a, d, hfoothold⟩, fun _ => ⟨a, hplace⟩⟩,
      ⟨fun h => absurd h hnot, fun hno => absurd ⟨a, d, hfoothold⟩ hno⟩, fun {b} hb => ?_,
      fun _ => ⟨hadopted, hexpelled⟩, fun h => absurd h hnot⟩
    obtain rfl : a = b := by simpa using hplace.symm.trans hb
    exact ⟨d, hnearest.of_place hsame, hlabel, hdepth⟩
  · have hno : ¬∃ a d, r.forest.Foothold T S v s (.arc a) d := fun ⟨a, d, ha⟩ =>
      hnone a d (ha.of_place fun w => (hsame w).symm)
    have hnot (a : Arc m) : r'.forest.place v ≠ .tree s (.arc a) := by simp [hfree]
    exact ⟨⟨fun ⟨a, ha⟩ => absurd ha (hnot a), fun h => absurd h hno⟩,
      ⟨fun _ => hno, fun _ => hfree⟩, fun ha => absurd ha (hnot _), fun ha => absurd ha (hnot _),
      fun _ => ⟨hadopted, hexpelled⟩⟩

end Repair

end MinCut
