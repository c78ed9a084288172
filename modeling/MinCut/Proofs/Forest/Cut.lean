import MinCut.Proofs.Forest.Growth
import MinCut.Proofs.Forest.Path

/-!
# After an augmentation

Sending flow along a path takes capacity from the arcs of the path, gives some to
their sisters, and draws on the terminals of the two roots. The trees see of
this only where capacity is left, and `Support.Sent` is all they need to know:
away from the path nothing is lost, and what is gained lies on sisters of arcs
of the path.

Links that hold no longer belong to nodes of the path, and exactly these nodes
are cut off, which takes the forest from sound to mending (`Sound.cut`). What
is gained makes no node loud: an arc that carries again leads from a node of a
leg to its parent in the same tree, or from the sink's tree to the source's,
where no tree grows.

The nodes that hang loose are known as a list, in the order in which the walk over the path meets
them. Since the legs are in different trees and no node is on a leg twice, no node hangs loose
twice, and each of them is listed as an orphan once.
-/

namespace MinCut

variable {n m : Nat}

/-- **What sending flow along a path does to a support.** -/
structure Support.Sent (p : Path n m) (S S' : Support n m) : Prop where
  /-- Capacity is gained on sisters of arcs of the path only. -/
  carries_of {a : Arc m} : S'.carries a = true → S.carries a = true ∨ a.sister ∈ p.arcs
  /-- Capacity is lost on arcs of the path only. -/
  carries_keep {a : Arc m} : S.carries a = true → a ∉ p.arcs → S'.carries a = true
  /-- No node gains capacity at a terminal. -/
  terminal_of {v : Fin n} {s : Side} : S'.terminal v = some s → S.terminal v = some s
  /-- Only the roots of the path lose some. -/
  terminal_keep {v : Fin n} {s : Side} : S.terminal v = some s → v ≠ (p.leg s).root →
    S'.terminal v = some s

namespace Forest

variable {T : Topology n m} {S S' : Support n m} {f g : Forest n m} {p : Path n m}
variable {current busy : Option (Fin n)} {v : Fin n} {s : Side} {a : Arc m}

/-! ## From the scan to the path -/

/-- Time passing by a scan makes all stamps old, and old stamps say nothing that could be wrong. -/
theorem Sound.tick (hf : f.Sound T S current busy) : f.tick.Sound T S current busy where
  linked := hf.linked.of_place fun _ => rfl
  stamped := by
    refine ⟨fun v => Nat.le_succ_of_le (hf.stamped.stamp_le v), fun {v} _ hnow => ?_⟩
    have hold : (f.label v).stamp ≤ f.time := hf.stamped.stamp_le v
    have hnew : (f.label v).stamp = f.time + 1 := hnow
    omega
  waiting := ⟨hf.waiting.nodup, hf.waiting.active_iff, hf.waiting.not_queued⟩
  quiet := hf.quiet
  claimed := hf.claimed
  link?_ne_orphan := hf.link?_ne_orphan
  orphans_eq_nil := hf.orphans_eq_nil

/-- The node whose scan has found a bridge becomes the current one. -/
theorem Sound.flag (hf : f.Sound T S none (some v)) (hidle : (f.label v).active = false) :
    (f.flag v true).Sound T S (some v) none := by
  have hplace (w : Fin n) : (f.flag v true).place w = f.place w := place_flag f v w true
  have hqueue : v ∉ f.queue.toList := fun hv => by
    rw [(hf.waiting.active_iff v).2 (.inl hv)] at hidle
    exact absurd hidle (by simp)
  refine ⟨hf.linked.of_place hplace, hf.stamped.flag v true,
    ⟨hf.waiting.nodup, fun w => ?_, ?_⟩, fun w r hw hidle' _ a ha hlive => ?_,
    hf.claimed.congr fun w => side?_flag f v w true, fun w => ?_, hf.orphans_eq_nil⟩
  · show ((f.flag v true).label w).active = true ↔ w ∈ f.queue.toList ∨ some v = some w
    rw [label_flag]
    by_cases h : w = v
    · simp [h]
    · have hidle'' : (f.label w).active = true ↔ w ∈ f.queue.toList := by
        simpa using hf.waiting.active_iff w
      simp [h, Ne.symm h, hidle'']
  · rintro w ⟨⟩
    exact hqueue
  · rw [side?_flag] at hw ⊢
    rw [label_flag] at hidle'
    split at hidle'
    · exact absurd hidle' (by simp)
    · rename_i h
      exact hf.quiet hw hidle' (by simpa using Ne.symm h) ha hlive
  · rw [link?_eq, hplace]
    exact hf.link?_ne_orphan w

/-- **The arc a scan has ended with closes an augmenting path.** -/
theorem Sound.augmenting (hf : f.Sound T S current busy) (hv : f.side? v = some s)
    (hj : f.Joined T S v s a) : f.Augmenting T S (f.path T a) := by
  obtain ⟨b, htail, rfl, hlive, hhead⟩ := hj
  -- the bridge leads from the source tree to the sink tree, whichever of them has been scanned
  have hside : ∀ r, f.side? ((f.path T (s.carrier b.sister)).foot T r) = some r := by
    cases s with
    | source =>
      have hbridge : Side.source.carrier b.sister = b := by simp
      rw [hbridge]
      rintro (_ | _)
      · exact (congrArg f.side? htail).trans hv
      · exact hhead
    | sink =>
      have hbridge : Side.sink.carrier b.sister = b.sister := rfl
      rw [hbridge]
      rintro (_ | _)
      · exact hhead
      · refine (congrArg f.side? ?_).trans hv
        exact (T.head_sister b).trans htail
  have hdepth (r : Side) : ∃ d, f.Depth T ((f.path T (s.carrier b.sister)).foot T r) d :=
    hf.exists_depth (by rw [hside]; exact Option.some_ne_none r)
  refine ⟨hf.linked, hside, fun r => ?_, hdepth, hlive⟩
  obtain ⟨d, hd⟩ := hdepth r
  cases r with
  | source => exact hd.climb_leg
  | sink => exact hd.climb_leg

/-! ## Cutting off several nodes -/

/-- **Cutting off the nodes of a list** shows in their links only. -/
theorem label_foldl_orphanFront (l : List (Fin n)) (f : Forest n m) (w : Fin n) :
    (l.foldl orphanFront f).label w
      = if w ∈ l then { f.label w with place := (f.label w).place.relink .orphan }
        else f.label w := by
  induction l generalizing f with
  | nil => simp
  | cons v l ih =>
    rw [List.foldl_cons, ih, label_orphanFront, label_sever]
    by_cases hw : w = v
    · subst hw
      cases (f.label w).place <;> simp [Place.relink]
    · simp [hw]

/-- Their places change as their links do. -/
theorem place_foldl_orphanFront (l : List (Fin n)) (f : Forest n m) (w : Fin n) :
    (l.foldl orphanFront f).place w
      = if w ∈ l then (f.place w).relink .orphan else f.place w := by
  unfold place
  rw [label_foldl_orphanFront]
  split <;> rfl

/-- The nodes cut off wait in front of all others, the last one first. -/
theorem foldl_orphanFront (l : List (Fin n)) (f : Forest n m) :
    (l.foldl orphanFront f).orphans.toList = l.reverse ++ f.orphans.toList
      ∧ (l.foldl orphanFront f).queue = f.queue
      ∧ (l.foldl orphanFront f).time = f.time := by
  induction l generalizing f with
  | nil => simp
  | cons v l ih =>
    obtain ⟨horphans, hqueue, htime⟩ := ih (f.orphanFront v)
    rw [List.foldl_cons]
    refine ⟨?_, hqueue, htime⟩
    rw [horphans]
    show l.reverse ++ (v :: f.orphans.toList) = _
    simp

/-! ## Cutting a path -/

/-- A node hangs loose on a leg by its link, or at the root by its terminal. -/
theorem mem_leg_loose {leg : Leg n m} {u : Fin n} :
    u ∈ leg.loose T S s
      ↔ (∃ b ∈ leg.links, S.live s b = false ∧ T.tail b = u)
        ∨ S.terminal leg.root ≠ some s ∧ u = leg.root := by
  unfold Leg.loose
  rw [List.mem_append, List.mem_map]
  refine or_congr ?_ ?_
  · simp [and_assoc]
  · by_cases h : S.terminal leg.root = some s <;> simp [h]

/-- A node hangs loose on a path if it does so on one of its legs. -/
theorem mem_path_loose {u : Fin n} :
    u ∈ p.loose T S ↔ ∃ s, u ∈ (p.leg s).loose T S s := by
  unfold Path.loose
  rw [List.mem_append]
  constructor
  · rintro (h | h)
    · exact ⟨.source, h⟩
    · exact ⟨.sink, h⟩
  · rintro ⟨_ | _, h⟩
    · exact .inl h
    · exact .inr h

/-- What hangs loose on a leg is among its nodes, in their order. -/
theorem loose_sublist (T : Topology n m) (S : Support n m) (s : Side) (leg : Leg n m) :
    (leg.loose T S s).Sublist (leg.nodes T) := by
  unfold Leg.loose Leg.nodes
  refine List.Sublist.append (List.filter_sublist.map T.tail) ?_
  split
  · exact List.nil_sublist _
  · exact List.Sublist.refl _

/-- The nodes hanging loose on a side of an augmenting path are in its tree. -/
theorem Augmenting.side?_of_loose (hp : f.Augmenting T S p) {u : Fin n}
    (hu : u ∈ (p.leg s).loose T S' s) : f.side? u = some s :=
  hp.side?_of_mem ((loose_sublist T S' s (p.leg s)).subset hu)

/-- No node hangs loose twice. -/
theorem Augmenting.nodup_loose (hp : f.Augmenting T S p) : (p.loose T S').Nodup := by
  have hleg (s : Side) : ((p.leg s).loose T S' s).Nodup :=
    (hp.nodup_leg_nodes s).sublist (loose_sublist T S' s _)
  refine List.nodup_append.2 ⟨hleg .source, hleg .sink, fun u hu w hw huw => ?_⟩
  have hsource : f.side? u = some .source := hp.side?_of_loose hu
  have hsink : f.side? w = some .sink := hp.side?_of_loose hw
  rw [huw, hsink] at hsource
  exact absurd hsource (by simp)

/-- **What does not hang loose still holds.** -/
theorem Augmenting.live_of_not_loose (hp : f.Augmenting T S p) (hs : Support.Sent p S S')
    (hplace : f.place v = .tree s (.arc a)) (hv : v ∉ p.loose T S') :
    S'.live s a = true := by
  by_contra hdead
  have htail := hp.linked.tail hplace
  have hmem : s.carrier a ∈ p.arcs := by
    by_contra hnot
    exact hdead (hs.carries_keep (hp.linked.live hplace) hnot)
  have hlink : a ∈ (p.leg s).links := by
    refine hp.mem_links ?_ hmem
    rw [htail]
    exact side?_of_place hplace
  refine hv (mem_path_loose.2 ⟨s, mem_leg_loose.2 (.inl ⟨a, hlink, ?_, htail⟩)⟩)
  exact Bool.eq_false_iff.2 hdead

@[inherit_doc Augmenting.live_of_not_loose]
theorem Augmenting.terminal_of_not_loose (hp : f.Augmenting T S p)
    (hs : Support.Sent p S S') (hplace : f.place v = .tree s .terminal)
    (hv : v ∉ p.loose T S') : S'.terminal v = some s := by
  by_contra hdead
  have hroot : v = (p.leg s).root := by
    by_contra hne
    exact hdead (hs.terminal_keep (hp.linked.terminal hplace) hne)
  subst hroot
  exact hv (mem_path_loose.2 ⟨s, mem_leg_loose.2 (.inr ⟨hdead, rfl⟩)⟩)

/-- **Sending flow makes no node loud.** An arc that carries again leads to a
node of the same tree, wherever a tree could grow along it. -/
theorem Augmenting.head_of_gained (hp : f.Augmenting T S p) (hs : Support.Sent p S S')
    (hv : f.side? (T.tail a) = some s) (hlive : S'.live s a.sister = true)
    (hdead : ¬S.live s a.sister = true) : f.side? (T.head a) = some s := by
  have hmem : s.carrier a ∈ p.arcs := by
    rcases hs.carries_of hlive with hold | hnew
    · exact absurd hold hdead
    · rwa [s.carrier_sister, Arc.sister_sister] at hnew
  exact hp.linked.head (hp.place_tail (hp.mem_links hv hmem))

/-! ## The forest after the cut -/

/-- **Cutting a path** shows in the links of the nodes hanging loose only. -/
theorem label_cut (f : Forest n m) (w : Fin n) : (f.cut T S' p).label w
    = if w ∈ p.loose T S' then { f.label w with place := (f.label w).place.relink .orphan }
      else f.label w :=
  label_foldl_orphanFront (p.loose T S') f w

/-- The nodes that hang loose become orphans of their trees, and the others stay where they are. -/
theorem place_cut (f : Forest n m) (w : Fin n) : (f.cut T S' p).place w
    = if w ∈ p.loose T S' then (f.place w).relink .orphan else f.place w :=
  place_foldl_orphanFront (p.loose T S') f w

/-- Cutting a path makes no node active or inactive. -/
theorem active_cut (f : Forest n m) (w : Fin n) :
    ((f.cut T S' p).label w).active = (f.label w).active := by
  rw [label_cut]
  split <;> rfl

/-- It stamps no node. -/
theorem stamp_cut (f : Forest n m) (w : Fin n) :
    ((f.cut T S' p).label w).stamp = (f.label w).stamp := by
  rw [label_cut]
  split <;> rfl

/-- What hangs loose waits in front, the last of it first. -/
theorem orphans_cut (f : Forest n m) :
    (f.cut T S' p).orphans.toList = (p.loose T S').reverse ++ f.orphans.toList :=
  (foldl_orphanFront (p.loose T S') f).1

/-- The queue is not touched. -/
theorem queue_cut (f : Forest n m) : (f.cut T S' p).queue = f.queue :=
  (foldl_orphanFront (p.loose T S') f).2.1

/-- No time passes. -/
theorem time_cut (f : Forest n m) : (f.cut T S' p).time = f.time :=
  (foldl_orphanFront (p.loose T S') f).2.2

/-- No node changes its tree by being cut off. -/
theorem side?_cut (f : Forest n m) (w : Fin n) : (f.cut T S' p).side? w = f.side? w := by
  rw [side?_eq, side?_eq, place_cut]
  split
  · rw [Place.side?_relink]
  · rfl

/-- A node that still has a link does not hang loose and has kept it. -/
theorem place_of_cut {l : Link m} (hl : l ≠ .orphan)
    (hv : (f.cut T S' p).place v = .tree s l) : v ∉ p.loose T S' ∧ f.place v = .tree s l := by
  rw [place_cut] at hv
  split at hv
  · exact absurd (Place.eq_of_relink hv) hl
  · rename_i hnot
    exact ⟨hnot, hv⟩

/-- **The links that are left hold** after an augmentation. -/
theorem Augmenting.linked_cut (hp : f.Augmenting T S p) (hs : Support.Sent p S S') :
    (f.cut T S' p).Linked T S' := by
  refine hp.linked.of_relink (fun w => ?_) (fun w r hw _ => ?_) fun w r b hw _ => ?_
  · rw [place_cut]
    split
    · exact .inr rfl
    · exact .inl rfl
  · obtain ⟨hnot, hfw⟩ := place_of_cut (by simp) hw
    exact hp.terminal_of_not_loose hs hfw hnot
  · obtain ⟨hnot, hfw⟩ := place_of_cut (by simp) hw
    exact hp.live_of_not_loose hs hfw hnot

/-- The nodes cut off are the orphans, and all of them are listed. -/
theorem Augmenting.listed_cut (hp : f.Augmenting T S p) (hnil : f.orphans.toList = [])
    (hnone : ∀ w, f.link? w ≠ some .orphan) : (f.cut T S' p).Listed none := by
  refine ⟨?_, fun w => ?_⟩
  · rw [orphans_cut, hnil, List.append_nil]
    exact List.nodup_reverse.2 hp.nodup_loose
  · rw [orphans_cut, hnil, List.append_nil, List.mem_reverse, link?_eq, place_cut]
    split
    · rename_i hw
      obtain ⟨r, hr⟩ := mem_path_loose.1 hw
      obtain ⟨l, hl⟩ := exists_place_of_side? (hp.side?_of_loose hr)
      simp [hw, hl, Place.relink]
    · rename_i hw
      simp only [hw, false_iff, not_and]
      exact fun ho => absurd ho (hnone w)

/-- **Cutting off what hangs loose** after an augmentation leaves a forest that
an adoption pass can mend. -/
theorem Sound.cut (hf : f.Sound T S current none)
    (hold : ∀ w, (f.label w).stamp < f.time) (hp : f.Augmenting T S p)
    (hs : Support.Sent p S S') : (f.cut T S' p).Mending T S' current none where
  linked := hp.linked_cut hs
  stamped := by
    refine ⟨fun w => ?_, fun {w} _ hnow => ?_⟩
    · rw [stamp_cut, time_cut]
      exact (hold w).le
    · -- no stamp is one of the present time
      rw [stamp_cut, time_cut] at hnow
      exact absurd hnow (hold w).ne
  listed := hp.listed_cut hf.orphans_eq_nil hf.link?_ne_orphan
  waiting := hf.waiting.congr (active_cut f) (queue_cut f)
  quiet := by
    intro w r hw hidle hbusy b hb hlive
    rw [side?_cut] at hw ⊢
    rw [active_cut] at hidle
    by_cases hbefore : S.live r b.sister = true
    · exact hf.quiet hw hidle hbusy hb hbefore
    · -- the arc carries again, and then it leads along a leg
      subst hb
      exact hp.head_of_gained hs hw hlive hbefore
  claimed w r hw := (side?_cut f w).trans (hf.claimed (hs.terminal_of hw))

end Forest

end MinCut
