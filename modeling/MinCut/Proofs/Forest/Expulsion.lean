import MinCut.Forest.Adoption
import MinCut.Proofs.Forest.Activation
import MinCut.Proofs.Forest.Attachment

/-!
# Expelling an orphan

An orphan that finds no parent is released. Before that each of its arcs is
dealt with: a neighbour in the same tree from which flow could run to the orphan
is activated, for it may grow into the gap later, and a child of the orphan is
cut off. This goes through the arcs that leave the orphan, and the point is that
these are enough (`Mending.release`). Every child hangs over an arc whose sister
leaves the orphan, so none is missed, even where several arcs join the two. And
a neighbour that is not activated has no capacity toward the orphan or is in the
other tree, where it would have been active before.
-/

namespace MinCut

namespace Forest

variable {n m : Nat} {T : Topology n m} {S : Support n m} {f g h : Forest n m}
variable {current held : Option (Fin n)} {v : Fin n} {s : Side}

/-! ## Cutting off

Each arc out of the orphan is dealt with by itself, in two steps: the other end is activated, if it
could grow into the gap, and then it is cut off, if it is a child. What has been done about an arc
is recorded as `Forest.Parted`. Dealing with the other arcs only loosens links and activates nodes
(`Forest.Loosened`), which undoes none of it. -/

/-- Activating a node keeps the invariant. -/
theorem Mending.activate (hf : f.Mending T S current held) (v : Fin n) :
    (f.activate v).Mending T S current held where
  linked := hf.linked.of_place (place_activate f v)
  stamped := hf.stamped.activate v
  listed := by
    refine ⟨?_, fun w => ?_⟩
    · rw [orphans_activate]
      exact hf.listed.nodup
    · rw [orphans_activate, link?_eq, place_activate]
      exact hf.listed.mem_iff w
  waiting := hf.waiting.activate v
  quiet := hf.quiet.activate v
  claimed w r hw := (side?_activate f v w).trans (hf.claimed hw)

/-- **What cutting children off and activating neighbours does to the links**: some are lost, and no
node changes its tree. Unlike mending in general it hangs no node from another one, so that a node
which is no child of the orphan does not become one. -/
structure Loosened (T : Topology n m) (f g : Forest n m) : Prop extends Mended T f g where
  same_side (v : Fin n) : g.side? v = f.side? v
  arc {v : Fin n} {a : Arc m} : g.link? v = some (.arc a) → f.link? v = some (.arc a)

namespace Loosened

/-- Nothing need be loosened. -/
theorem refl (f : Forest n m) : Loosened T f f := ⟨.refl f, fun _ => rfl, fun h => h⟩

/-- Links that are not lost in two steps are those that neither of them has lost. -/
theorem trans (hfg : Loosened T f g) (hgh : Loosened T g h) : Loosened T f h :=
  ⟨hfg.toMended.trans hgh.toMended, fun v => (hgh.same_side v).trans (hfg.same_side v),
    fun ha => hfg.arc (hgh.arc ha)⟩

/-- Activating a node loosens nothing. -/
theorem activate (f : Forest n m) (v : Fin n) : Loosened T f (f.activate v) where
  place _ := place_activate f v _
  side? w := .inl (side?_activate f v w)
  active hw := (active_activate f v _).2 (.inr hw)
  time := time_activate f v
  same_side w := side?_activate f v w
  arc ha := by rwa [link?_eq, place_activate] at ha

end Loosened

/-- A node that has been cut off is an orphan. -/
theorem link?_sever_self {l : Link m} (hv : f.link? v = some l) :
    (f.sever v).link? v = some .orphan := by
  obtain ⟨s, hp⟩ := exists_place_of_link? hv
  rw [link?_eq, place_sever, if_pos rfl, hp]
  rfl

/-- No other link is lost. -/
theorem link?_sever_of_ne {w : Fin n} (h : w ≠ v) : (f.sever v).link? w = f.link? w := by
  rw [link?_eq, place_sever, if_neg h]
  rfl

/-- Cutting off a node that is adrift leaves the nodes with a depth alone. -/
theorem Loosened.orphanBack {l : Link m} (hv : f.Adrift T v) (hl : f.link? v = some l) :
    Loosened T f (f.orphanBack v) where
  place {w} k hw := by
    show (f.sever v).place w = f.place w
    rw [place_sever, if_neg]
    rintro rfl
    exact hw.not_adrift hv
  side? w := .inl (side?_orphanBack f v w)
  active {w} hw := (label_sever_congr Label.active (fun _ _ => rfl) f v w).trans hw
  time := rfl
  same_side w := side?_orphanBack f v w
  arc {w a} ha := by
    have ha' : (f.sever v).link? w = some (.arc a) := ha
    by_cases h : w = v
    · subst h
      rw [link?_sever_self hl] at ha'
      exact absurd ha' (by simp)
    · rwa [link?_sever_of_ne h] at ha'

/-- **Cutting a child of the orphan off** keeps the invariant. The child is adrift like the orphan,
so that no noted distance is concerned, and it was not listed before, since it had a parent. -/
theorem Mending.orphanBack {w : Fin n} {a : Arc m} (hf : f.Mending T S current held)
    (hw : f.link? w = some (.arc a)) (had : f.Adrift T w) (hheld : held ≠ some w) :
    (f.orphanBack w).Mending T S current held := by
  have hfg := Loosened.orphanBack had hw
  -- it is not listed yet
  have hnew : w ∉ f.orphans.toList := by
    rw [hf.listed.mem_iff, hw]
    simp
  refine ⟨hf.linked.of_relink (fun u => ?_) (fun _ _ _ h => h) (fun _ _ _ _ h => h),
    hf.stamped.congr (label_sever_congr Label.stamp (fun _ _ => rfl) f w)
      (label_sever_congr Label.distance (fun _ _ => rfl) f w) rfl (fun u hu => ?_)
      fun _ _ hd => hfg.depth hd,
    ⟨?_, fun u => ?_⟩,
    hf.waiting.congr (label_sever_congr Label.active (fun _ _ => rfl) f w) rfl,
    hf.quiet.congr (side?_orphanBack f w)
      (label_sever_congr Label.active (fun _ _ => rfl) f w),
    hf.claimed.congr (side?_orphanBack f w)⟩
  · show (f.sever w).place u = f.place u ∨ (f.sever w).place u = _
    rw [place_sever]
    split
    · rename_i h
      rw [h]
      exact .inr rfl
    · exact .inl rfl
  · rwa [side?_orphanBack] at hu
  · -- so it is listed once afterwards
    show (f.orphans.pushBack w).toList.Nodup
    rw [Deque.toList_pushBack, List.nodup_append]
    refine ⟨hf.listed.nodup, List.nodup_singleton w, fun u hu x hx => ?_⟩
    rw [List.mem_singleton.1 hx]
    rintro rfl
    exact hnew hu
  · show u ∈ (f.orphans.pushBack w).toList ↔ (f.sever w).link? u = _ ∧ _
    rw [Deque.toList_pushBack, List.mem_append, List.mem_singleton, hf.listed.mem_iff]
    by_cases h : u = w
    · subst h
      simp [link?_sever_self hw, hheld]
    · simp [link?_sever_of_ne h, h]

/-- What has been done about the other end of an arc out of an expelled node: it
is no child any more, and it is active if it can grow into the gap. -/
def Parted (T : Topology n m) (S : Support n m) (v : Fin n) (s : Side) (f : Forest n m)
    (a : Arc m) : Prop :=
  f.side? (T.head a) = some s →
    (∀ b, f.link? (T.head a) = some (.arc b) → T.head b ≠ v)
      ∧ (S.live s a = true → (f.label (T.head a)).active = true)

/-- What has been done about one arc is not undone when the others are dealt with. -/
theorem Parted.loosened {a : Arc m} (h : f.Parted T S v s a) (hfg : Loosened T f g) :
    g.Parted T S v s a := by
  intro hside
  rw [hfg.same_side] at hside
  obtain ⟨hchild, hactive⟩ := h hside
  exact ⟨fun b hb => hchild b (hfg.arc hb), fun hlive => hfg.active (hactive hlive)⟩

/-- **What happens to the other end of an arc**: it may be activated, and then it may be cut off,
if it is a child. -/
theorem estrange_cases (T : Topology n m) (S : Support n m) (s : Side) (v : Fin n)
    (f : Forest n m) (a : Arc m) :
    ∃ g, (g = f ∨ g = f.activate (T.head a))
      ∧ (estrange T S s v f a = g
        ∨ estrange T S s v f a = g.orphanBack (T.head a)
          ∧ ∃ up, g.link? (T.head a) = some (.arc up) ∧ T.head up = v) := by
  unfold estrange
  split
  · simp only
    refine ⟨if S.live s a = true then f.activate (T.head a) else f, ?_, ?_⟩
    · split
      · exact .inr rfl
      · exact .inl rfl
    · split
      · rename_i up hup
        split
        · rename_i hchild
          exact .inr ⟨rfl, up, hup, hchild⟩
        · exact .inl rfl
      · exact .inl rfl
  · exact ⟨f, .inl rfl, .inl rfl⟩

/-- **The neighbour over an arc is activated** if it could grow into the gap. It is active in the
end then, and nothing else has changed about the trees. -/
theorem rouse_spec {a : Arc m} (hf : f.Mending T S current (some v))
    (hv : f.place v = .tree s .orphan)
    (hg : g = if S.live s a = true then f.activate (T.head a) else f) :
    g.Mending T S current (some v) ∧ Loosened T f g ∧ g.place v = .tree s .orphan
      ∧ (S.live s a = true → (g.label (T.head a)).active = true) := by
  subst hg
  split
  case isTrue hlive =>
    exact ⟨hf.activate _, .activate f _, (place_activate f _ v).trans hv,
      fun _ => (active_activate f _ _).2 (.inl rfl)⟩
  case isFalse hidle => exact ⟨hf, .refl f, hv, fun hlive => absurd hlive hidle⟩

/-- **A child of the orphan is cut off.** It hangs from a node that is adrift, so no depth is
lost, and it is not the orphan itself, which has no parent. -/
theorem disown_spec {u : Fin n} {up : Arc m} (hg : g.Mending T S current (some v))
    (hv : g.place v = .tree s .orphan) (hup : g.link? u = some (.arc up)) (hchild : T.head up = v) :
    (g.orphanBack u).Mending T S current (some v) ∧ Loosened T g (g.orphanBack u)
      ∧ (g.orphanBack u).place v = .tree s .orphan
      ∧ (g.orphanBack u).link? u = some .orphan := by
  have hne : u ≠ v := by
    rintro rfl
    rw [link?_of_place hv] at hup
    exact absurd hup (by simp)
  have hadrift : g.Adrift T u := by
    refine .child hup ?_
    rw [hchild]
    exact .orphan (link?_of_place hv)
  refine ⟨hg.orphanBack hup hadrift fun h => hne (Option.some.inj h).symm,
    .orphanBack hadrift hup, ?_, link?_sever_self hup⟩
  show (g.sever u).place v = _
  rw [place_sever, if_neg (Ne.symm hne), hv]

/-- **Dealing with one arc out of an orphan to be expelled.** The other end is activated first and
cut off afterwards, and only what is done last can be seen of its link. -/
theorem estrange_spec {a : Arc m} (hf : f.Mending T S current (some v))
    (hv : f.place v = .tree s .orphan) :
    (estrange T S s v f a).Mending T S current (some v)
      ∧ Loosened T f (estrange T S s v f a)
      ∧ (estrange T S s v f a).place v = .tree s .orphan
      ∧ (estrange T S s v f a).Parted T S v s a := by
  unfold estrange
  split
  case isFalse hother => exact ⟨hf, .refl f, hv, fun h => absurd h hother⟩
  case isTrue =>
    simp only
    generalize hg : (if S.live s a = true then f.activate (T.head a) else f) = g
    obtain ⟨hgm, hfg, hgv, hactive⟩ := rouse_spec hf hv hg.symm
    split
    · rename_i up hup
      split
      case isTrue hchild =>
        -- a child of the orphan, which has no parent any more
        obtain ⟨hhm, hgh, hhv, horphan⟩ := disown_spec hgm hgv hup hchild
        refine ⟨hhm, hfg.trans hgh, hhv, fun _ => ⟨fun b hb => ?_,
          fun hlive => hgh.active (hactive hlive)⟩⟩
        exact absurd (horphan.symm.trans hb) (by simp)
      case isFalse hother =>
        -- a child of some other node
        refine ⟨hgm, hfg, hgv, fun _ => ⟨fun b hb => ?_, hactive⟩⟩
        obtain rfl : up = b := by simpa using hup.symm.trans hb
        exact hother
    · -- a root, or an orphan like the one that is expelled
      rename_i hno
      exact ⟨hgm, hfg, hgv, fun _ => ⟨fun b hb => absurd hb (hno b), hactive⟩⟩

/-- **Dealing with all arcs out of an orphan** leaves it without children, and
its neighbours active where they can grow. -/
theorem foldl_estrange_spec (hf : f.Mending T S current (some v))
    (hv : f.place v = .tree s .orphan) (arcs : List (Arc m)) :
    (arcs.foldl (estrange T S s v) f).Mending T S current (some v)
      ∧ Loosened T f (arcs.foldl (estrange T S s v) f)
      ∧ (arcs.foldl (estrange T S s v) f).place v = .tree s .orphan
      ∧ ∀ a ∈ arcs, (arcs.foldl (estrange T S s v) f).Parted T S v s a := by
  -- over the arcs, each of which keeps what has been done about those before it
  induction arcs generalizing f with
  | nil => exact ⟨hf, .refl f, hv, fun a ha => absurd ha List.not_mem_nil⟩
  | cons a arcs ih =>
    obtain ⟨hgm, hfg, hgv, hparted⟩ := estrange_spec (a := a) hf hv
    obtain ⟨hhm, hgh, hhv, hrest⟩ := ih hgm hgv
    refine ⟨hhm, hfg.trans hgh, hhv, fun b hb => ?_⟩
    rcases List.mem_cons.1 hb with rfl | hb
    · exact hparted.loosened hgh
    · exact hrest b hb

/-! ## Releasing

When all arcs have been dealt with the orphan has no children, and its neighbours are active where
they can grow. So taking it out of its tree breaks no chain and makes no neighbour loud, and the
invariant is restored part by part. -/

/-- Releasing an orphan leaves the nodes with a depth alone. -/
theorem Mended.release (hv : f.place v = .tree s .orphan) : Mended T f (f.release v) where
  place {w} k hw := by
    rw [place_release, if_neg]
    rintro rfl
    exact not_depth_of_orphan hv k hw
  side? w := by
    rw [side?_release]
    split
    · exact .inr rfl
    · exact .inl rfl
  active {w} hw := (label_update_congr Label.active (fun _ => by rfl) f v w).trans hw
  time := rfl

/-- A node that is in a tree after a release was there before. -/
theorem place_of_release {w : Fin n} {r : Side} {l : Link m}
    (hw : (f.release v).place w = .tree r l) : w ≠ v ∧ f.place w = .tree r l := by
  rw [place_release] at hw
  split at hw
  · exact absurd hw (by simp)
  · rename_i h
    exact ⟨h, hw⟩

@[inherit_doc place_of_release]
theorem side?_of_release {w : Fin n} {r : Side} (hw : (f.release v).side? w = some r) :
    w ≠ v ∧ f.side? w = some r := by
  obtain ⟨l, hl⟩ := exists_place_of_side? hw
  obtain ⟨hne, hplace⟩ := place_of_release hl
  exact ⟨hne, side?_of_place hplace⟩

/-- **An orphan whose arcs have been dealt with has no children**: a child would be
at the other end of one of them. -/
theorem Linked.head_ne (hf : f.Linked T S) (hv : f.place v = .tree s .orphan)
    (hparted : ∀ a, T.tail a = v → f.Parted T S v s a) {w : Fin n} {b : Arc m}
    (hw : f.link? w = some (.arc b)) : T.head b ≠ v := by
  intro hb
  obtain ⟨r, hp⟩ := exists_place_of_link? hw
  have hr : some r = some s := by
    rw [← hf.head hp, hb, side?_of_place hv]
  -- the sister of the arc over which a child hangs leaves the orphan, so it has been dealt with
  have hwr : f.side? (T.head b.sister) = some s := by
    rw [T.head_sister, hf.tail hp, side?_of_place hp, hr]
  refine (hparted b.sister hb hwr).1 b ?_ hb
  rw [T.head_sister, hf.tail hp, hw]

/-- Releasing an orphan without children keeps all links. No chain passes through the orphan, and a
chain that was adrift runs into another orphan. -/
theorem Linked.release (hf : f.Linked T S) (hv : f.place v = .tree s .orphan)
    (hchild : ∀ w b, f.link? w = some (.arc b) → T.head b ≠ v) : (f.release v).Linked T S := by
  have hlink {w : Fin n} (hw : w ≠ v) : (f.release v).link? w = f.link? w := by
    rw [link?_eq, place_release, if_neg hw]
    rfl
  -- no chain passes through the orphan, so one that is adrift still is
  have hadrift {w : Fin n} (hw : f.Adrift T w) (hne : w ≠ v) : (f.release v).Adrift T w := by
    induction hw with
    | orphan ho => exact .orphan ((hlink hne).trans ho)
    | child hl _ ih => exact .child ((hlink hne).trans hl) (ih (hchild _ _ hl))
  refine ⟨fun hw => hf.terminal (place_of_release hw).2,
    fun hw => hf.tail (place_of_release hw).2, fun hw => ?_,
    fun hw => hf.live (place_of_release hw).2, fun {w} hw => ?_⟩
  · have hp := (place_of_release hw).2
    rw [side?_release, if_neg (hchild _ _ (link?_of_place hp))]
    exact hf.head hp
  · obtain ⟨r, hr⟩ := Option.ne_none_iff_exists'.1 hw
    obtain ⟨hne, hfr⟩ := side?_of_release hr
    rcases hf.ends (by rw [hfr]; exact Option.some_ne_none r) with ⟨d, hd⟩ | had
    · exact .of_depth ((Mended.release hv).depth hd)
    · exact .inr (hadrift had hne)

/-- **A released orphan makes no neighbour loud**: an inactive one that could grow into the gap
would have been activated. A neighbour that is not of the same tree is no matter, since it had to be
active before. -/
theorem Quiet.release (hf : f.Quiet T S none) (hv : f.place v = .tree s .orphan)
    (hparted : ∀ a, T.tail a = v → f.Parted T S v s a) : (f.release v).Quiet T S none := by
  intro w r hw hidle hbusy a ha hlive
  obtain ⟨_, hfw⟩ := side?_of_release hw
  rw [show ((f.release v).label w).active = (f.label w).active from
    label_update_congr Label.active (fun _ => by rfl) f v w] at hidle
  have hsame := hf hfw hidle hbusy ha hlive
  rw [side?_release, if_neg]
  · exact hsame
  · -- suppose the gap is what the neighbour could grow into
    intro hgap
    obtain rfl : r = s := by
      rw [hgap, side?_of_place hv] at hsame
      exact (Option.some.inj hsame).symm
    have htail : T.head a.sister = w := by
      rw [T.head_sister, ha]
    have hactive := (hparted a.sister hgap (by rw [htail, hfw])).2 hlive
    rw [htail, hidle] at hactive
    exact absurd hactive Bool.false_ne_true

/-- **Releasing an orphan** that has no children and whose neighbours are active
where they can grow into the gap. -/
theorem Mending.release (hf : f.Mending T S current (some v))
    (hv : f.place v = .tree s .orphan) (hterm : S.terminal v ≠ some s)
    (hparted : ∀ a, T.tail a = v → f.Parted T S v s a) :
    (f.release v).Mending T S current none := by
  refine ⟨hf.linked.release hv fun w b => hf.linked.head_ne hv hparted,
    hf.stamped.congr (label_update_congr Label.stamp (fun _ => by rfl) f v)
      (label_update_congr Label.distance (fun _ => by rfl) f v) rfl (fun w hw => ?_)
      fun _ _ hd => (Mended.release hv).depth hd,
    ⟨hf.listed.nodup, fun w => ?_⟩,
    hf.waiting.congr (label_update_congr Label.active (fun _ => by rfl) f v) rfl,
    hf.quiet.release hv hparted, fun w r hw => ?_⟩
  · obtain ⟨r, hr⟩ := Option.ne_none_iff_exists'.1 hw
    rw [(side?_of_release hr).2]
    exact Option.some_ne_none r
  · refine (hf.listed.mem_iff w).trans ?_
    by_cases h : w = v
    · subst h
      simp [link?_eq, place_release]
    · simp [link?_eq, place_release, h, Ne.symm h]
  · rw [side?_release, if_neg]
    · exact hf.claimed hw
    · -- a node with capacity left at the terminal would not have been released
      rintro rfl
      refine hterm (hw.trans ?_)
      rw [← hf.claimed hw, side?_of_place hv]

/-- **Expelling the orphan taken off the line** restores the invariant. -/
theorem Mending.expel (hf : f.Mending T S current (some v))
    (hv : f.place v = .tree s .orphan) (hterm : S.terminal v ≠ some s) :
    (f.expel T S s v).Mending T S current none ∧ Mended T f (f.expel T S s v) := by
  unfold Forest.expel
  obtain ⟨hgm, hfg, hgv, hparted⟩ := foldl_estrange_spec hf hv (T.out v)
  refine ⟨hgm.release hgv hterm fun a ha => hparted a (Topology.mem_out.2 ha), ?_⟩
  exact hfg.toMended.trans (.release hgv)

end Forest

end MinCut
