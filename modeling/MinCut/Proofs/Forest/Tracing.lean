import MinCut.Forest.Adoption
import MinCut.Proofs.Forest.Attachment

/-!
# Looking for a parent

An orphan traces the chains of its neighbours to find those that reach the
terminal. Tracing notes distances and changes no tree (`Forest.Alike`), and
what it notes is right: the invariant `Forest.Stamped` lets a later trace stop
at the first stamped node. So the best parent found is a foothold
(`Forest.bestParent_spec`).

Two forests that are alike have the same chains, footholds and trees. So what has been found out in
one of the forests that a search for a parent passes through holds in all of them, and it can always
be told in terms of the forest with which the search began.
-/

namespace MinCut

namespace Forest

variable {n m : Nat} {T : Topology n m} {S : Support n m} {f g h : Forest n m}
variable {current held : Option (Fin n)} {v : Fin n} {s : Side}

/-! ## Noting distances

Whatever notes distances moves no node, and so the forest before and after are alike. Depths are
told from the links, so that both have the same, and a noted distance is right if it is the depth.
-/

/-- The same trees and waiting lines, with other distances noted. -/
structure Alike (f g : Forest n m) : Prop where
  /-- Each node is where it was. -/
  place (v : Fin n) : g.place v = f.place v
  /-- It waits if it did before. -/
  active (v : Fin n) : (g.label v).active = (f.label v).active
  /-- The queue is the same. -/
  queue : g.queue = f.queue
  /-- So is the line of orphans. -/
  orphans : g.orphans = f.orphans
  /-- So is the time. -/
  time : g.time = f.time

namespace Alike

/-- A forest is like itself. -/
theorem refl (f : Forest n m) : Alike f f := ⟨fun _ => rfl, fun _ => rfl, rfl, rfl, rfl⟩

/-- To be alike is mutual. -/
theorem symm (hfg : Alike f g) : Alike g f :=
  ⟨fun v => (hfg.place v).symm, fun v => (hfg.active v).symm, hfg.queue.symm,
    hfg.orphans.symm, hfg.time.symm⟩

/-- Forests like a third one are alike. -/
theorem trans (hfg : Alike f g) (hgh : Alike g h) : Alike f h :=
  ⟨fun v => (hgh.place v).trans (hfg.place v), fun v => (hgh.active v).trans (hfg.active v),
    hgh.queue.trans hfg.queue, hgh.orphans.trans hfg.orphans, hgh.time.trans hfg.time⟩

/-- Nodes are in the same trees. -/
theorem side? (hfg : Alike f g) (v : Fin n) : g.side? v = f.side? v :=
  congrArg Place.side? (hfg.place v)

/-- They have the same links. -/
theorem link? (hfg : Alike f g) (v : Fin n) : g.link? v = f.link? v :=
  congrArg Place.link? (hfg.place v)

/-- They have the same depths. -/
theorem depth (hfg : Alike f g) {d : Nat} (hd : f.Depth T v d) : g.Depth T v d :=
  hd.congr fun u _ _ => hfg.link? u

/-- Noting distances moves nothing, which is one way to mend. -/
theorem mended (hfg : Alike f g) : Mended T f g where
  place _ := hfg.place _
  side? v := .inl (hfg.side? v)
  active {v} ha := (hfg.active v).trans ha
  time := hfg.time

/-- A mark notes a distance. -/
theorem mark (f : Forest n m) (v : Fin n) (d : Nat) : Alike f (f.mark v d) where
  place w := f.place_mark v w d
  active w := label_update_congr Label.active (fun _ => by rfl) f v w
  queue := rfl
  orphans := rfl
  time := rfl

end Alike

/-- Noting distances keeps the invariant, if what is noted is right. -/
theorem Mending.of_alike (hf : f.Mending T S current held) (hfg : Alike f g)
    (hg : g.Stamped T) : g.Mending T S current held where
  linked := hf.linked.of_place hfg.place
  stamped := hg
  listed := by
    refine ⟨?_, fun v => ?_⟩
    · rw [hfg.orphans]
      exact hf.listed.nodup
    · rw [hfg.orphans, hfg.link?]
      exact hf.listed.mem_iff v
  waiting := hf.waiting.congr hfg.active hfg.queue
  quiet := hf.quiet.congr hfg.side? hfg.active
  claimed := hf.claimed.congr hfg.side?

/-- Marking a node with its depth leaves what is noted right. -/
theorem Stamped.mark (hf : f.Stamped T) {d : Nat} (hd : f.Depth T v d) :
    (f.mark v d).Stamped T := by
  refine ⟨fun w => ?_, fun {w} hw hstamp => ?_⟩
  · rw [label_mark]
    split
    · exact Nat.le_refl f.time
    · exact hf.stamp_le w
  · rw [side?_mark] at hw
    rw [label_mark] at hstamp ⊢
    split at hstamp
    · rename_i h
      subst h
      rw [if_pos rfl]
      exact (Alike.mark f w d).depth hd
    · rename_i h
      rw [if_neg h]
      exact (Alike.mark f v d).depth (hf.depth hw hstamp)

/-- **Tracing a chain** notes right distances only, and the distance it gives is
the depth. -/
theorem trace_spec (hl : f.Linked T S) (hs : f.Stamped T) (bound : Nat)
    (hv : f.side? v ≠ none) :
    Alike f (trace T bound f v).2 ∧ (trace T bound f v).2.Stamped T
      ∧ ∀ d, (trace T bound f v).1 = some d → f.Depth T v d := by
  -- over the links followed
  induction bound generalizing v with
  | zero => exact ⟨.refl f, hs, fun d hd => absurd hd (by simp [trace])⟩
  | succ bound ih =>
    unfold trace
    split
    · -- a stamp of this pass is trusted, which `Stamped` allows
      rename_i hstamp
      refine ⟨.refl f, hs, fun d hd => ?_⟩
      rw [← Option.some.inj hd]
      exact hs.depth hv hstamp
    · split
      · rename_i hlink
        -- the node is a root
        have hd : f.Depth T v 1 := .root hlink
        refine ⟨.mark f v 1, hs.mark hd, fun d h => ?_⟩
        rw [← Option.some.inj h]
        exact hd
      · rename_i a hlink
        obtain ⟨s, hplace⟩ := exists_place_of_link? hlink
        have hparent : f.side? (T.head a) ≠ none := by
          rw [hl.head hplace]
          exact Option.some_ne_none s
        obtain ⟨halike, hstamped, hdepth⟩ := ih hparent
        split
        · rename_i d g htrace
          rw [htrace] at halike hstamped hdepth
          -- the distance of the parent has been found, and the node is one link further away
          have hd : f.Depth T v (d + 1) := .child hlink (hdepth d rfl)
          refine ⟨halike.trans (.mark g v _), hstamped.mark (halike.depth hd), fun e he => ?_⟩
          rw [← Option.some.inj he]
          exact hd
        · rename_i g htrace
          rw [htrace] at halike hstamped
          exact ⟨halike, hstamped, fun d hd => absurd hd (by simp)⟩
      · exact ⟨.refl f, hs, fun d hd => absurd hd (by simp)⟩

/-! ## Looking for a parent

The arcs are weighed one by one. The forest stays alike, and the best parent is a foothold at a
distance that is its depth. -/

/-- A foothold is one in any forest with the same nodes in the same places. -/
theorem Foothold.of_place {l : Link m} {d : Nat} (h : g.Foothold T S v s l d)
    (hfg : ∀ w, g.place w = f.place w) : f.Foothold T S v s l d := by
  cases h with
  | terminal ht => exact .terminal ht
  | arc htail hhead hlive hdepth =>
    refine .arc htail ((congrArg Place.side? (hfg _)).symm.trans hhead) hlive ?_
    exact hdepth.congr fun u _ _ => (congrArg Place.link? (hfg u)).symm

/-- A foothold is one in any forest that is alike. -/
theorem Foothold.of_alike {l : Link m} {d : Nat} (h : g.Foothold T S v s l d)
    (hfg : Alike f g) : f.Foothold T S v s l d :=
  h.of_place hfg.place

/-- The best parent after an arc has been weighed is the new one or the old one. -/
theorem nearer_cases {best : Option (Arc m × Nat)} {a b : Arc m} {d e : Nat}
    (h : nearer best a d = some (b, e)) : b = a ∧ e = d ∨ best = some (b, e) := by
  cases best with
  | none =>
    cases h
    exact .inl ⟨rfl, rfl⟩
  | some old =>
    simp only [nearer] at h
    split at h
    · cases h
      exact .inl ⟨rfl, rfl⟩
    · exact .inr h

/-- **What is known after some arcs out of a node have been weighed**, from a forest on:
the forest now and the best parent so far. -/
structure Weighed (T : Topology n m) (S : Support n m) (v : Fin n) (s : Side) (f : Forest n m)
    (state : Forest n m × Option (Arc m × Nat)) : Prop where
  /-- Only distances have been noted. -/
  alike : Alike f state.1
  /-- They are right. -/
  stamped : state.1.Stamped T
  /-- The best parent so far is a foothold. -/
  foothold {a : Arc m} {d : Nat} : state.2 = some (a, d) →
    f.Foothold T S v s (.arc a) (d + 1)

namespace Weighed

variable {state : Forest n m × Option (Arc m × Nat)} {a : Arc m}

/-- Before any arc has been weighed. -/
theorem nil (hs : f.Stamped T) : Weighed T S v s f (f, none) :=
  ⟨.refl f, hs, fun h => absurd h (by simp)⟩

/-- Weighing one more arc. -/
theorem weigh (h : Weighed T S v s f state) (hl : f.Linked T S) (ha : T.tail a = v) :
    Weighed T S v s f (Forest.weigh T S s state a) := by
  obtain ⟨g, best⟩ := state
  obtain ⟨halike, hstamped, hbest⟩ := h
  simp only [Forest.weigh]
  split
  · rename_i hcand
    obtain ⟨hlive, hside⟩ := hcand
    have hlg : g.Linked T S := hl.of_place halike.place
    have htree : g.side? (T.head a) ≠ none := by
      rw [hside]
      exact Option.some_ne_none s
    obtain ⟨htalike, htstamped, htdepth⟩ := trace_spec hlg hstamped n htree
    split
    · rename_i d g' htrace
      rw [htrace] at htalike htstamped htdepth
      have hnew : f.Foothold T S v s (.arc a) (d + 1) :=
        (Foothold.arc ha hside hlive (htdepth d rfl)).of_alike halike
      refine ⟨halike.trans htalike, htstamped, fun {b e} hb => ?_⟩
      rcases nearer_cases hb with ⟨rfl, rfl⟩ | hold
      · exact hnew
      · exact hbest hold
    · rename_i g' htrace
      rw [htrace] at htalike htstamped
      exact ⟨halike.trans htalike, htstamped, hbest⟩
  · exact ⟨halike, hstamped, hbest⟩

/-- Weighing several arcs, one after the other. -/
theorem foldl {arcs : List (Arc m)} (h : Weighed T S v s f state) (hl : f.Linked T S)
    (harcs : ∀ a ∈ arcs, T.tail a = v) :
    Weighed T S v s f (arcs.foldl (Forest.weigh T S s) state) := by
  induction arcs generalizing state with
  | nil => exact h
  | cons a arcs ih =>
    exact ih (h.weigh hl (harcs a List.mem_cons_self)) fun b hb =>
      harcs b (List.mem_cons_of_mem a hb)

end Weighed

/-- **The best parent is a foothold**, and looking for it notes right distances
only. -/
theorem bestParent_spec (hl : f.Linked T S) (hs : f.Stamped T) (v : Fin n) (s : Side) :
    Weighed T S v s f (bestParent T S s f v) :=
  (Weighed.nil hs).foldl hl fun _ ha => Topology.mem_out.1 ha

end Forest

end MinCut
