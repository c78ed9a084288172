import MinCut.Proofs.Forest.Loops
import MinCut.Proofs.Forest.Path
import MinCut.Proofs.Forest.Scanning

/-!
# What the noted distances mean

A distance is noted together with a stamp, and both grow old. The parent of a node may get a new
distance while the node keeps the one it has. So a noted distance says nothing by itself, and
what holds of it at all times is told along the links (`Forest.Dated`). No node has a stamp
younger than that of its parent. Where the stamps agree, the distances differ by the link between
the two. It follows that a node has the right distance if it is stamped like its root
(`Forest.Climb.distance_eq`).

In an adoption pass all stamps are old at first, and the nodes stamped since then are those whose
distance is known to be right. They make up whole chains, as each of them is deeper by one link
than a node that is among them too (`Forest.Fresh.trusted`).

A change of several labels matters in one of two ways only. Either links are lost and nothing is
noted (`Forest.Fades`), or one node is stamped at the present time, with a parent that is stamped
then as well (`Forest.Fresh.renew`).
-/

namespace MinCut

variable {n m : Nat} {T : Topology n m} {S S' : Support n m}

namespace Forest

variable {f g h : Forest n m} {u v w : Fin n} {s : Side} {a : Arc m} {d : Nat}
variable {current : Option (Fin n)}

/-- **What stamps and distances say along the links.** -/
structure Dated (T : Topology n m) (f : Forest n m) : Prop where
  /-- A root is at distance one. -/
  root {v : Fin n} : f.link? v = some .terminal → (f.label v).distance = 1
  /-- A node is not stamped later than its parent. -/
  stamp_le {v : Fin n} {a : Arc m} : f.link? v = some (.arc a) →
    (f.label v).stamp ≤ (f.label (T.head a)).stamp
  /-- If they are stamped at the same time, the node is one link further away. -/
  distance_eq {v : Fin n} {a : Arc m} : f.link? v = some (.arc a) →
    (f.label v).stamp = (f.label (T.head a)).stamp →
      (f.label v).distance = (f.label (T.head a)).distance + 1

/-! ## Along a chain -/

/-- The links of a leg and the one to the terminal are the depth. -/
theorem Climb.depth {leg : Leg n m} (h : Climb T f v leg) :
    f.Depth T v (leg.links.length + 1) := by
  induction h with
  | root hl => exact .root hl
  | up hl _ ih => exact .child hl ih

/-- No node is stamped later than its root. -/
theorem Climb.stamp_le {leg : Leg n m} (h : Climb T f v leg) (hf : f.Dated T) :
    (f.label v).stamp ≤ (f.label leg.root).stamp := by
  induction h with
  | root _ => exact Nat.le_refl _
  | up hl _ ih => exact (hf.stamp_le hl).trans ih

/-- **A node stamped like its root is at the distance noted.** -/
theorem Climb.distance_eq {leg : Leg n m} (h : Climb T f v leg) (hf : f.Dated T)
    (hroot : (f.label v).stamp = (f.label leg.root).stamp) :
    (f.label v).distance = leg.links.length + 1 := by
  induction h with
  | root hl => exact hf.root hl
  | @up v a leg hl rest ih =>
    -- the stamp of the parent lies between the two, so all three agree
    have hparent := hf.stamp_le hl
    have habove := rest.stamp_le hf
    have hup : (f.label (T.head a)).stamp = (f.label leg.root).stamp :=
      Nat.le_antisymm habove (hroot ▸ hparent)
    rw [hf.distance_eq hl (hroot.trans hup.symm), ih hup]
    rfl

/-! ## Losing links -/

/-- **Links may be lost, and nothing else happens** to what is noted. -/
structure Fades (f g : Forest n m) : Prop where
  /-- A node that has a link has had it before. -/
  link? {v : Fin n} {l : Link m} : l ≠ .orphan → g.link? v = some l → f.link? v = some l
  /-- No node is stamped. -/
  stamp (v : Fin n) : (g.label v).stamp = (f.label v).stamp
  /-- No distance is noted. -/
  distance (v : Fin n) : (g.label v).distance = (f.label v).distance

/-- Nodes may be cut off and released. -/
theorem Fades.of_place
    (hplace : ∀ v, g.place v = f.place v ∨ g.place v = .free
      ∨ g.place v = (f.place v).relink .orphan)
    (hstamp : ∀ v, (g.label v).stamp = (f.label v).stamp)
    (hdistance : ∀ v, (g.label v).distance = (f.label v).distance) : Fades f g where
  link? {v l} hne hl := by
    obtain ⟨s, hs⟩ := exists_place_of_link? hl
    rcases hplace v with hsame | hfree | hcut
    · rw [link?_eq, hsame] at hl
      exact hl
    · exact absurd (hfree.symm.trans hs) (by simp)
    · exact absurd (Place.eq_of_relink (hcut.symm.trans hs)) hne
  stamp := hstamp
  distance := hdistance

/-- **What is noted stays right** where links are lost. -/
theorem Dated.fades (hf : f.Dated T) (hfg : Fades f g) : g.Dated T where
  root hl := (hfg.distance _).trans (hf.root (hfg.link? (by simp) hl))
  stamp_le hl := by
    rw [hfg.stamp, hfg.stamp]
    exact hf.stamp_le (hfg.link? (by simp) hl)
  distance_eq hl heq := by
    rw [hfg.stamp, hfg.stamp] at heq
    rw [hfg.distance, hfg.distance]
    exact hf.distance_eq (hfg.link? (by simp) hl) heq

/-! ## Growth -/

/-- The nodes of the trees are as they were, and a free node that joins hangs from the node that
is scanned. -/
theorem Grows.label_cases {live : Arc m → Bool} {stamp distance : Nat} {arcs : List (Arc m)}
    {bridge? : Option (Arc m)} (h : Grows T live s stamp distance arcs f bridge? g) (u : Fin n) :
    g.label u = f.label u
      ∨ f.side? u = none
        ∧ ∃ a ∈ arcs, g.label u = ⟨.tree s (.arc a.sister), stamp, distance + 1, true⟩ := by
  have hlabel := h.label u
  cases hfirst : f.offshoot? T live s arcs u with
  | none =>
    rw [hfirst] at hlabel
    exact .inl hlabel
  | some a =>
    rw [hfirst] at hlabel
    have hhead : T.head a = u := by simpa using List.find?_some hfirst
    obtain ⟨hpassed, hsprouts⟩ := List.mem_filter.1 (List.mem_of_find?_eq_some hfirst)
    rw [sprouts, Bool.and_eq_true, decide_eq_true_iff, hhead] at hsprouts
    exact .inr ⟨hsprouts.2, a, (List.takeWhile_sublist _).subset hpassed, hlabel⟩

/-- **What a scan notes is right**: a child is at the distance of its parent and one link more,
and its stamp is that of its parent. -/
theorem Dated.grow (hf : f.Dated T) (hl : f.Linked T S) (hv : f.side? v = some s) :
    (f.grow T S v).2.Dated T := by
  have hgrows := grows_grow (T := T) (S := S) hv
  generalize (f.grow T S v).2 = g at hgrows ⊢
  -- a scan writes no label of a node that is in a tree
  have htree {u : Fin n} (hu : f.side? u ≠ none) : g.label u = f.label u :=
    (hgrows.label_cases u).resolve_right fun h => hu h.1
  have hscanned : g.label v = f.label v := htree (by rw [hv]; exact Option.some_ne_none s)
  -- a link is there before the scan, or it is that of a child of the node scanned
  have hcases (u : Fin n) {l : Link m} (hu : g.link? u = some l) :
      g.label u = f.label u ∧ f.link? u = some l
        ∨ ∃ a, l = .arc a ∧ T.head a = v ∧ (g.label u).stamp = (g.label v).stamp
          ∧ (g.label u).distance = (g.label v).distance + 1 := by
    rcases hgrows.label_cases u with hsame | ⟨-, a, ha, hnew⟩
    · rw [link?_eq, place, hsame] at hu
      exact .inl ⟨hsame, hu⟩
    · rw [link?_eq, place, hnew] at hu
      rw [hnew, hscanned]
      refine .inr ⟨a.sister, (Option.some.inj hu).symm, ?_, rfl, rfl⟩
      rw [T.head_sister, Topology.mem_out.1 ha]
  -- the parent of a node was there before it, so its label is the old one
  have hparent {u : Fin n} {a : Arc m} (hu : f.link? u = some (.arc a)) :
      g.label (T.head a) = f.label (T.head a) :=
    htree (hl.side?_head_ne_none hu)
  refine ⟨fun {u} hu => ?_, fun {u a} hu => ?_, fun {u a} hu => ?_⟩
  · -- for a link that was there, what has been noted; for a new one, what the scan notes
    rcases hcases u hu with ⟨hsame, hold⟩ | ⟨a, harc, -⟩
    · rw [hsame]
      exact hf.root hold
    · cases harc
  · rcases hcases u hu with ⟨hsame, hold⟩ | ⟨b, harc, hhead, hstamp, -⟩
    · rw [hsame, hparent hold]
      exact hf.stamp_le hold
    · cases harc
      rw [hhead, hstamp]
  · rcases hcases u hu with ⟨hsame, hold⟩ | ⟨b, harc, hhead, -, hdistance⟩
    · rw [hsame, hparent hold]
      exact hf.distance_eq hold
    · cases harc
      rw [hhead]
      exact fun _ => hdistance

/-! ## In an adoption pass

During a pass a stamp of the present time means more than the distance: the whole chain of the node
has been stamped in this pass, so that it reaches a terminal. A node that is cut off or released
meanwhile is adrift, and no such node has been stamped in the pass. -/

/-- **The labels in an adoption pass**: as always, and the stamps of free nodes are old. A node that
is expelled keeps its stamp, and the pass must not take it for one of those it has stamped itself.
-/
structure Fresh (T : Topology n m) (f : Forest n m) : Prop extends Dated T f where
  /-- A free node has not been stamped in the pass. -/
  stamp_lt {v : Fin n} : f.side? v = none → (f.label v).stamp < f.time

/-- **The nodes stamped at the present time** can be trusted. -/
structure Trusted (T : Topology n m) (f : Forest n m) : Prop where
  /-- The parent of such a node is one as well. -/
  parent {v : Fin n} {a : Arc m} : (f.label v).stamp = f.time → f.link? v = some (.arc a) →
    (f.label (T.head a)).stamp = f.time
  /-- None is an orphan. -/
  link?_ne_orphan {v : Fin n} : (f.label v).stamp = f.time → f.link? v ≠ some .orphan
  /-- None is free. -/
  side?_ne_none {v : Fin n} : (f.label v).stamp = f.time → f.side? v ≠ none
  /-- The distance is the depth. -/
  depth {v : Fin n} : (f.label v).stamp = f.time → f.Depth T v (f.label v).distance

namespace Fresh

/-- **The nodes stamped in a pass can be trusted.** They were stamped one after the other, each
after its parent, so that their chains have been stamped up to the terminal. -/
theorem trusted (hf : f.Fresh T) (hs : f.Stamped T) : f.Trusted T := by
  have htree {v : Fin n} (hv : (f.label v).stamp = f.time) : f.side? v ≠ none := fun hnone =>
    (hf.stamp_lt hnone).ne hv
  refine ⟨fun {v a} hv hl => Nat.le_antisymm (hs.stamp_le _) ?_,
    fun hv => (hs.depth (htree hv) hv).not_orphan, htree, fun hv => hs.depth (htree hv) hv⟩
  -- the parent is stamped no earlier than the node
  rw [← hv]
  exact hf.stamp_le hl

/-- Links are lost, and no node leaves its tree. -/
theorem fades (hf : f.Fresh T) (hfg : Fades f g) (hside : ∀ v, g.side? v = f.side? v)
    (htime : g.time = f.time) : g.Fresh T where
  toDated := hf.toDated.fades hfg
  stamp_lt {v} hv := by
    rw [hside] at hv
    rw [hfg.stamp, htime]
    exact hf.stamp_lt hv

/-- **A node of a tree is stamped**, and its parent has been stamped before. -/
theorem renew (hf : f.Fresh T) (hg : g.Stamped T) (htime : g.time = f.time)
    (hlabel : ∀ w, w ≠ v → g.label w = f.label w) (hv : g.side? v ≠ none)
    (hnow : (g.label v).stamp = g.time)
    (hparent : ∀ a, g.link? v = some (.arc a) → (g.label (T.head a)).stamp = g.time) :
    g.Fresh T := by
  -- all stamps but one are those there were
  have hne {w : Fin n} (hw : (g.label w).stamp ≠ g.time) : w ≠ v := by
    rintro rfl
    exact hw hnow
  have hlink {w : Fin n} (hw : w ≠ v) : g.link? w = f.link? w := by
    rw [link?_eq, link?_eq, place, place, hlabel w hw]
  -- roots, the order of stamps along a link, distances along a link, and free nodes
  refine ⟨⟨fun {w} hw => ?_, fun {w a} hw => ?_, fun {w a} hw heq => ?_⟩, fun {w} hw => ?_⟩
  · by_cases h : (g.label w).stamp = g.time
    · exact (hg.depth (side?_ne_none_of_link? hw) h).unique (.root hw)
    · rw [hlabel w (hne h)]
      exact hf.root ((hlink (hne h)).symm.trans hw)
  · by_cases h : (g.label (T.head a)).stamp = g.time
    · rw [h]
      exact hg.stamp_le w
    · -- the parent is not the node that is stamped, and neither is the child then
      have hwv : w ≠ v := by
        rintro rfl
        exact h (hparent a hw)
      rw [hlabel _ (hne h), hlabel w hwv]
      exact hf.stamp_le ((hlink hwv).symm.trans hw)
  · by_cases h : (g.label w).stamp = g.time
    · -- both are stamped now, and their depths are known
      obtain ⟨e, he, hup⟩ := (hg.depth (side?_ne_none_of_link? hw) h).parent hw
      rw [he, (hg.depth hup.side?_ne_none (heq.symm.trans h)).unique hup]
    · have hup : (g.label (T.head a)).stamp ≠ g.time := fun hup => h (heq.trans hup)
      rw [hlabel w (hne h), hlabel _ (hne hup)] at heq ⊢
      exact hf.distance_eq ((hlink (hne h)).symm.trans hw) heq
  · have hwv : w ≠ v := by
      rintro rfl
      exact hv hw
    rw [hlabel w hwv, htime]
    refine hf.stamp_lt ?_
    rwa [side?_eq, place, hlabel w hwv] at hw

/-- Marking a node of a tree, whose parent has been marked before. -/
theorem mark (hf : f.Fresh T) (hg : (f.mark v d).Stamped T) (hv : f.side? v ≠ none)
    (hparent : ∀ a, f.link? v = some (.arc a) → (f.label (T.head a)).stamp = f.time) :
    (f.mark v d).Fresh T := by
  refine hf.renew (v := v) hg rfl (fun w hw => ?_) ?_ ?_ fun a ha => ?_
  · rw [label_mark, if_neg hw]
  · rwa [side?_mark]
  · rw [label_mark, if_pos rfl]
    rfl
  · rw [link?_eq, place_mark] at ha
    rw [label_mark]
    split
    · rfl
    · exact hparent a ha

/-- Hanging a node into a tree at the present time, from a parent that is stamped then. -/
theorem attach {l : Link m} (hf : f.Fresh T) (hg : (f.attach v s l f.time d).Stamped T)
    (hparent : ∀ a, l = .arc a → (f.label (T.head a)).stamp = f.time) :
    (f.attach v s l f.time d).Fresh T := by
  refine hf.renew (v := v) hg rfl (fun w hw => ?_) ?_ ?_ fun a ha => ?_
  · rw [label_attach, if_neg hw]
  · rw [side?_attach, if_pos rfl]
    exact Option.some_ne_none s
  · rw [label_attach, if_pos rfl]
    rfl
  · rw [link?_attach, if_pos rfl] at ha
    rw [label_attach]
    split
    · rfl
    · exact hparent a (Option.some.inj ha)

/-- Releasing a node that is adrift, whose stamp is old. -/
theorem release (hf : f.Fresh T) (hs : f.Stamped T) (hv : f.Adrift T v) :
    (f.release v).Fresh T := by
  have hstamp (w : Fin n) : ((f.release v).label w).stamp = (f.label w).stamp :=
    label_update_congr Label.stamp (fun _ => by rfl) f v w
  refine ⟨hf.toDated.fades (.of_place (fun w => ?_) hstamp
    (label_update_congr Label.distance (fun _ => by rfl) f v)), fun {w} hw => ?_⟩
  · -- the node loses its link, and nothing is noted
    rw [place_release]
    split
    · exact .inr (.inl rfl)
    · exact .inl rfl
  · rw [hstamp]
    rw [side?_release] at hw
    split at hw
    · -- the node keeps its stamp, which is no stamp of this pass
      rename_i h
      rw [h]
      exact Nat.lt_of_le_of_ne (hs.stamp_le v) (hv.stamp_ne hs)
    · exact hf.stamp_lt hw

end Fresh

/-! ## Looking for a parent

A trace stamps the chain from above. So at each moment the nodes that are stamped have stamped
parents, which is all that is required of them. -/

/-- **What a trace leaves behind**: nodes that have been stamped in the pass stay so, and a node
whose distance is found is one of them. -/
structure Retraced (T : Topology n m) (f : Forest n m) (v : Fin n)
    (result : Option Nat × Forest n m) : Prop where
  /-- What is noted after the trace is right. -/
  fresh : result.2.Fresh T
  /-- No stamp of the pass is lost. -/
  stamp {u : Fin n} : (f.label u).stamp = f.time → (result.2.label u).stamp = f.time
  /-- If a distance is found, the node is stamped. -/
  found {d : Nat} : result.1 = some d → (result.2.label v).stamp = f.time

/-- A trace that stops at once leaves nothing behind. -/
theorem Retraced.refl (hf : f.Fresh T) : f.Retraced T v (none, f) :=
  ⟨hf, fun hu => hu, fun hd => absurd hd (by simp)⟩

/-- A mark is set at last. -/
theorem Retraced.mark {result : Option Nat × Forest n m} (h : f.Retraced T w result)
    (hfg : Alike f result.2) (hg : (result.2.mark v d).Stamped T) (hv : f.side? v ≠ none)
    (hparent : ∀ a, f.link? v = some (.arc a) → (result.2.label (T.head a)).stamp = f.time) :
    f.Retraced T v (some d, result.2.mark v d) where
  fresh := by
    refine h.fresh.mark hg ?_ fun a ha => ?_
    · rwa [hfg.side?]
    · rw [hfg.time]
      exact hparent a ((hfg.link? v).symm.trans ha)
  stamp {u} hu := by
    rw [label_mark]
    split
    · exact hfg.time
    · exact h.stamp hu
  found _ := by
    rw [label_mark, if_pos rfl]
    exact hfg.time

/-- **Tracing a chain** stamps it from above, so that every node comes after its parent. -/
theorem Fresh.trace (hf : f.Fresh T) (hl : f.Linked T S) (hs : f.Stamped T) (bound : Nat)
    (hv : f.side? v ≠ none) : f.Retraced T v (trace T bound f v) := by
  -- over the links followed
  induction bound generalizing v with
  | zero => exact .refl hf
  | succ bound ih =>
    unfold Forest.trace
    split
    · -- the chain need not be followed
      rename_i hnow
      exact ⟨hf, fun hu => hu, fun _ => hnow⟩
    · split
      · rename_i hlink
        refine (Retraced.refl (v := v) hf).mark (.refl f) (hs.mark (.root hlink)) hv fun a ha => ?_
        exact absurd (hlink.symm.trans ha) (by simp)
      · rename_i a hlink
        have hup := hl.side?_head_ne_none hlink
        have hparent := ih hup
        obtain ⟨halike, hstamped, hdepth⟩ := trace_spec hl hs bound hup
        split
        · rename_i d g htrace
          rw [htrace] at hparent halike hstamped hdepth
          have hd : g.Depth T v (d + 1) := halike.depth (.child hlink (hdepth d rfl))
          -- the parent has been marked by now, as its distance has been found
          refine hparent.mark halike (hstamped.mark hd) hv fun b hb => ?_
          obtain rfl : a = b := by simpa using hlink.symm.trans hb
          exact hparent.found rfl
        · rename_i g htrace
          rw [htrace] at hparent
          exact ⟨hparent.fresh, hparent.stamp, fun hd => absurd hd (by simp)⟩
      · exact .refl hf

/-- **What is known of the stamps after some arcs have been weighed**: the best parent so far is
stamped. -/
structure Reckoned (T : Topology n m) (state : Forest n m × Option (Arc m × Nat)) : Prop where
  /-- What is noted is right. -/
  fresh : state.1.Fresh T
  /-- The other end of the best arc is stamped at the present time. -/
  stamp {a : Arc m} {d : Nat} : state.2 = some (a, d) →
    (state.1.label (T.head a)).stamp = state.1.time

namespace Reckoned

variable {state : Forest n m × Option (Arc m × Nat)}

/-- Weighing one more arc. -/
theorem weigh (h : Reckoned T state) (hw : Weighed T S v s f state) (hl : f.Linked T S)
    (a : Arc m) : Reckoned T (Forest.weigh T S s state a) := by
  obtain ⟨g, best⟩ := state
  obtain ⟨halike, hstamped, -⟩ := hw
  simp only [Forest.weigh]
  split
  · rename_i hcand
    have htree : g.side? (T.head a) ≠ none := by
      rw [hcand.2]
      exact Option.some_ne_none s
    have hlg : g.Linked T S := hl.of_place halike.place
    have htrace := h.fresh.trace hlg hstamped n htree
    have htime := (trace_spec hlg hstamped n htree).1.time
    split
    · -- its distance is found, and it is taken or the old one is kept
      rename_i d g' heq
      rw [heq] at htrace htime
      refine ⟨htrace.fresh, fun {b e} hb => ?_⟩
      have hnew : (g'.label (T.head a)).stamp = g'.time := (htrace.found rfl).trans htime.symm
      rcases nearer_cases hb with ⟨rfl, rfl⟩ | hold
      · exact hnew
      · exact (htrace.stamp (h.stamp hold)).trans htime.symm
    · -- it has none, and the old one is kept
      rename_i g' heq
      rw [heq] at htrace htime
      exact ⟨htrace.fresh, fun hb => (htrace.stamp (h.stamp hb)).trans htime.symm⟩
  · exact h

/-- Weighing several arcs, one after the other. -/
theorem foldl {arcs : List (Arc m)} (h : Reckoned T state) (hw : Weighed T S v s f state)
    (hl : f.Linked T S) (harcs : ∀ a ∈ arcs, T.tail a = v) :
    Reckoned T (arcs.foldl (Forest.weigh T S s) state) := by
  induction arcs generalizing state with
  | nil => exact h
  | cons a arcs ih =>
    exact ih (h.weigh hw hl a) (hw.weigh hl (harcs a List.mem_cons_self)) fun b hb =>
      harcs b (List.mem_cons_of_mem a hb)

end Reckoned

/-- **Before a search for a distance** some arcs out of the orphan have been weighed. -/
theorem Fresh.foldl_weigh (hf : f.Fresh T) (hl : f.Linked T S) (hs : f.Stamped T)
    {arcs : List (Arc m)} (harcs : ∀ a ∈ arcs, T.tail a = v) :
    Reckoned T (arcs.foldl (Forest.weigh T S s) (f, none)) :=
  (Reckoned.mk hf fun h => absurd h (by simp)).foldl (.nil hs) hl harcs

/-! ## Cutting nodes off -/

/-- Activating a node notes nothing. -/
theorem Fresh.activate (hf : f.Fresh T) (v : Fin n) : (f.activate v).Fresh T := by
  have hlabel (w : Fin n) : (f.activate v).label w = (f.flag v true).label w :=
    label_activate_eq_flag f v w
  refine hf.fades (.of_place (fun w => .inl (place_activate f v w)) (fun w => ?_) fun w => ?_)
    (side?_activate f v) (time_activate f v)
  · rw [hlabel]
    exact label_update_congr Label.stamp (fun _ => by rfl) f v w
  · rw [hlabel]
    exact label_update_congr Label.distance (fun _ => by rfl) f v w

/-- Neither does cutting one off. -/
theorem Fresh.orphanBack (hf : f.Fresh T) (v : Fin n) : (f.orphanBack v).Fresh T := by
  refine hf.fades (.of_place (fun w => ?_) (label_sever_congr Label.stamp (fun _ _ => rfl) f v)
    (label_sever_congr Label.distance (fun _ _ => rfl) f v)) (side?_orphanBack f v) rfl
  show (f.sever v).place w = _ ∨ (f.sever v).place w = _ ∨ (f.sever v).place w = _
  rw [place_sever]
  split
  · rename_i h
    rw [h]
    exact .inr (.inr rfl)
  · exact .inl rfl

/-- So dealing with one arc of an orphan to be expelled notes nothing. -/
theorem Fresh.estrange (hf : f.Fresh T) (v : Fin n) (a : Arc m) :
    (estrange T S s v f a).Fresh T := by
  obtain ⟨g, hg, hcases⟩ := estrange_cases T S s v f a
  have hactive : g.Fresh T := by
    rcases hg with rfl | rfl
    · exact hf
    · exact hf.activate (T.head a)
  rcases hcases with hsame | ⟨hcut, -⟩
  · rw [hsame]
    exact hactive
  · rw [hcut]
    exact hactive.orphanBack (T.head a)

/-- Nor does taking one off the line. -/
theorem Fresh.pop {orphans : Deque (Fin n)} (hf : f.Fresh T) :
    ({ f with orphans } : Forest n m).Fresh T :=
  ⟨⟨hf.root, hf.stamp_le, hf.distance_eq⟩, hf.stamp_lt⟩

/-- **Expelling an orphan** notes nothing. -/
theorem Fresh.expel (hf : f.Fresh T) (hm : f.Mending T S current (some v))
    (hv : f.place v = .tree s .orphan) : (f.expel T S s v).Fresh T := by
  obtain ⟨hgm, -, hgv, -⟩ := foldl_estrange_spec hm hv (T.out v)
  have hfold (arcs : List (Arc m)) (f : Forest n m) (hf : f.Fresh T) :
      (arcs.foldl (Forest.estrange T S s v) f).Fresh T := by
    induction arcs generalizing f with
    | nil => exact hf
    | cons a arcs ih => exact ih _ (hf.estrange v a)
  exact (hfold (T.out v) f hf).release hgm.stamped (.orphan (link?_of_place hgv))

end Forest

/-! ## The pass -/

namespace Repair

variable {r r' : Repair n m} {current : Option (Fin n)} {v : Fin n} {s : Side}

/-- **Settling an orphan** notes what is right. -/
theorem settle_fresh (hf : r.forest.Fresh T) (hr : r.forest.Mending T S current (some v))
    (hv : r.forest.place v = .tree s .orphan) : (settle T S s r v).forest.Fresh T := by
  have hstamped := (settle_mending hr hv).1.stamped
  obtain ⟨f, adopted, expelled⟩ := r
  have hreckoned : Forest.Reckoned T (f.bestParent T S s v) :=
    hf.foldl_weigh hr.linked hr.stamped fun _ ha => Topology.mem_out.1 ha
  obtain ⟨halike, hsnoted, -⟩ := Forest.bestParent_spec hr.linked hr.stamped v s
  simp only [settle] at hstamped ⊢
  split
  · rename_i hterm
    -- it hangs from its terminal
    rw [if_pos hterm] at hstamped
    exact hf.attach hstamped fun a ha => absurd ha (by simp)
  · rename_i hterm
    rw [if_neg hterm] at hstamped
    split
    · rename_i g a d hbest
      rw [hbest] at hstamped hreckoned
      -- it hangs from the best parent, which is stamped
      refine hreckoned.fresh.attach hstamped fun b hb => ?_
      cases hb
      exact hreckoned.stamp rfl
    · rename_i g hbest
      rw [hbest] at hreckoned halike hsnoted
      -- it is expelled
      exact hreckoned.fresh.expel (hr.of_alike halike hsnoted) ((halike.place v).trans hv)

/-- **A round** notes what is right. -/
theorem state_round_fresh (hf : r.forest.Fresh T) (hr : r.forest.Mending T S current none) :
    (round T S r).state.forest.Fresh T := by
  rcases round_cases hr with ⟨-, hround⟩ | ⟨v, s, orphans, -, hplace, hheld, -, hround⟩
  · rw [hround]
    exact hf
  · rw [hround]
    exact settle_fresh (r := { r with forest := { r.forest with orphans } }) hf.pop hheld hplace

/-- **So it is at every state of a pass.** -/
theorem Visited.fresh (h : Visited T S r r') (hf : r.forest.Fresh T)
    (hr : r.forest.Mending T S current none) : r'.forest.Fresh T := by
  induction h with
  | begin => exact hf
  | round hr' ih => exact state_round_fresh ih (hr'.mending hr).1

/-- **The stamps can be trusted** at a state of a pass, and before and after each search for a
distance. -/
structure Trusting (T : Topology n m) (S : Support n m) (r : Repair n m) : Prop where
  /-- They can be trusted before the round. -/
  trusted : r.forest.Trusted T
  /-- Each search for a distance ends. -/
  traces {f : Forest n m} {u : Fin n} : r.Asks T S f u → f.Traces T u (Forest.trace T n f u)
  /-- They can be trusted when it begins. -/
  asked {f : Forest n m} {u : Fin n} : r.Asks T S f u → f.Trusted T
  /-- They can be trusted when it has ended. -/
  answered {f : Forest n m} {u : Fin n} : r.Asks T S f u → (Forest.trace T n f u).2.Trusted T

/-- **So it is in every pass** over a forest of which the labels are known to be right. -/
theorem trusting (hf : r.forest.Fresh T) (hr : r.forest.Mending T S current none) :
    r.Trusting T S := by
  have hasks {f : Forest n m} {u : Fin n} (h : r.Asks T S f u) : f.Fresh T := by
    obtain @⟨v, orphans, s, a, before, after, f, best, hpop, _, _, harcs, hbefore, _, hside⟩ := h
    obtain ⟨_, hheld, _⟩ := hr.pop hpop
    have hreckoned := hf.pop.foldl_weigh (v := v) (s := s) hheld.linked hheld.stamped fun b hb =>
      Topology.mem_out.1 (harcs ▸ List.mem_append_left _ hb)
    rw [hbefore] at hreckoned
    exact hreckoned.fresh
  refine ⟨hf.trusted hr.stamped, fun h => h.traces hr, fun h => ?_, fun h => ?_⟩
  · exact (hasks h).trusted (h.noted hr).2.1
  · obtain ⟨hplace, hstamped, htree⟩ := h.noted hr
    have hl := hr.linked.of_place hplace
    exact ((hasks h).trace hl hstamped n htree).fresh.trusted
      (Forest.trace_spec hl hstamped n htree).2.1

end Repair

end MinCut
