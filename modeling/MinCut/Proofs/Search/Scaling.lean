import MinCut.Proofs.Arena.Amounts
import MinCut.Proofs.Residual.Scaling

/-!
# Two searches in step

Amounts decide about a search only by their signs and by their order. So two searches on
the same topology go on in step if the amounts of one are multiples of the other's
(`Search.Lockstep`): they select and scan the same nodes, find the same bridges and augment
the same paths, of which one sends a multiple of what the other one sends. The forests
are the same throughout, and so is whatever is counted and told, but for the amounts.

One turn leads from searches in step to searches in step (`Search.Lockstep.turn`), and so do
all turns up to the end (`Search.Lockstep.run`).

The two networks need not have their nodes and edges in the same types, since they have been built
by different calls. They are compared by numbers then (`Residual.Corresponds`), and it follows that
there are as many of both, so that the searches can be compared as searches on one topology.
-/

namespace MinCut

variable {n m w : Nat} {T : Topology n m} {c total total' : Int}
variable {value value' : Finset Nat → Int}

namespace Search

variable {s s' : Search (Signed w) n m} {v : Fin n} {bridge : Arc m}

/-- **Two searches in step**: the amounts of one are multiples of the other's, and all else
is the same. -/
structure Lockstep (c : Int) (s s' : Search (Signed w) n m) : Prop where
  /-- The amounts are multiplied. -/
  residual : s.residual.Scaled c s'.residual
  /-- The trees are the same, with all that is noted about them. -/
  forest : s'.forest = s.forest
  /-- The current node is the same. -/
  current : s'.current = s.current
  /-- The counts are the same. -/
  stats : s'.stats = s.stats
  /-- What has been told differs in the amounts only. -/
  events : s'.events.map (Event.map Signed.toInt) = s.events.map (Event.map fun x => c * x.toInt)

/-- Searches on multiples begin in step. -/
theorem lockstep_start {r r' : Residual (Signed w) n m} (h : r.Scaled c r') (hc : 0 < c) :
    (start r).Lockstep c (start r') where
  residual := h
  forest := congrArg Forest.initial (h.support_eq hc)
  current := rfl
  stats := rfl
  events := rfl

namespace Lockstep

/-! ## One turn -/

/-- They select the same node. -/
theorem select_eq (h : s.Lockstep c s') :
    s'.forest.select s'.current = s.forest.select s.current := by
  rw [h.forest, h.current]

/-- They scan it alike. -/
theorem grow_eq (h : s.Lockstep c s') (hc : 0 < c) (v : Fin n) :
    s'.selected.grow T s'.residual.support v = s.selected.grow T s.residual.support v := by
  rw [selected, selected, h.select_eq, h.residual.support_eq hc]

/-- They have the same trees after the scan. -/
theorem scanned (h : s.Lockstep c s') (hc : 0 < c) (v : Fin n) :
    (Search.scanned T v s).Lockstep c (Search.scanned T v s') where
  residual := h.residual
  forest := congrArg (fun result => result.2.tick) (h.grow_eq hc v)
  current := rfl
  stats := congrArg (fun stats : Stats => { stats with growthSteps := stats.growthSteps + 1 })
    h.stats
  events := h.events

/-- They find the same bridges, -/
theorem finds (h : s.Lockstep c s') (hc : 0 < c) (hfinds : s.Finds T v bridge) :
    s'.Finds T v bridge where
  select_eq := by rw [h.select_eq, hfinds.select_eq]
  grow_eq := by rw [h.grow_eq hc, hfinds.grow_eq]

/-- which close the same paths. -/
theorem path_eq (h : s.Lockstep c s') (hc : 0 < c) (v : Fin n) (bridge : Arc m) :
    s'.path T v bridge = s.path T v bridge :=
  congrArg (fun f : Forest n m => f.path T bridge) (h.scanned hc v).forest

/-- The amounts sent along the path are multiples. -/
theorem toInt_bottleneck (h : s.Lockstep c s') (hw : 0 < w) (hc : 0 < c)
    (hs : s.Sound T total value) (hs' : s'.Sound T total' value') (hfinds : s.Finds T v bridge) :
    ((s'.path T v bridge).bottleneck s'.residual).toInt
      = c * ((s.path T v bridge).bottleneck s.residual).toInt := by
  rw [h.path_eq hc]
  exact h.residual.toInt_bottleneck hw hc hs.balanced hs'.balanced (hs.moved hw hfinds).1

/-- What is left afterwards are multiples again. -/
theorem residual_augment (h : s.Lockstep c s') (hw : 0 < w) (hc : 0 < c)
    (hs : s.Sound T total value) (hs' : s'.Sound T total' value') (hfinds : s.Finds T v bridge) :
    (Search.augment T v bridge (Search.scanned T v s)).residual.Scaled c
      (Search.augment T v bridge (Search.scanned T v s')).residual := by
  have hmoved' := (hs'.moved hw (h.finds hc hfinds)).2.2
  rw [h.toInt_bottleneck hw hc hs hs' hfinds, h.path_eq hc] at hmoved'
  exact h.residual.moved (hs.moved hw hfinds).2.2 hmoved'

/-- **They augment the path and mend the trees alike.** -/
theorem augment (h : s.Lockstep c s') (hw : 0 < w) (hc : 0 < c)
    (hs : s.Sound T total value) (hs' : s'.Sound T total' value') (hfinds : s.Finds T v bridge) :
    (Search.augment T v bridge (Search.scanned T v s)).Lockstep c
      (Search.augment T v bridge (Search.scanned T v s')) := by
  have hresidual := h.residual_augment hw hc hs hs' hfinds
  have hsupport := hresidual.support_eq hc
  have hscanned := h.scanned hc v (T := T)
  -- the same nodes are cut off, since the same links hold no longer
  have hsevered : s'.severed T v bridge = s.severed T v bridge := by
    rw [severed, severed, hscanned.forest, h.path_eq hc, hsupport]
  have hrepair : (s'.severed T v bridge).adopt T
        (Search.augment T v bridge (Search.scanned T v s')).residual.support
      = (s.severed T v bridge).adopt T
        (Search.augment T v bridge (Search.scanned T v s)).residual.support := by
    rw [hsevered, hsupport]
  -- what is told of it differs in the amount only
  have hamount : Event.map Signed.toInt (.augmented ((s'.path T v bridge).bottleneck s'.residual)
        bridge.number (T.tail bridge) (T.head bridge))
      = Event.map (fun x => c * x.toInt) (.augmented ((s.path T v bridge).bottleneck s.residual)
        bridge.number (T.tail bridge) (T.head bridge)) :=
    congrArg (Event.augmented · _ _ _) (h.toInt_bottleneck hw hc hs hs' hfinds)
  exact
    { residual := hresidual
      forest := congrArg Repair.forest hrepair
      current := rfl
      stats := congrArg₂ (fun (stats : Stats) (repair : Repair n m) =>
        { stats with
          augmentations := stats.augmentations + 1
          adopted := stats.adopted + repair.adopted
          expelled := stats.expelled + repair.expelled.length }) hscanned.stats hrepair
      events := by
        rw [events_augment, events_augment, hrepair, List.map_append, List.map_append,
          List.map_cons, List.map_cons, hamount, h.events, List.map_map, List.map_map]
        rfl }

/-- **One turn**: both searches are over, or both go on in step. -/
theorem turn (h : s.Lockstep c s') (hw : 0 < w) (hc : 0 < c)
    (hs : s.Sound T total value) (hs' : s'.Sound T total' value') :
    Sum.LiftRel (Lockstep c) (Lockstep c) (Search.turn T s).toSum (Search.turn T s').toSum := by
  cases hselect : (s.forest.select s.current).1 with
  | none =>
    have hselect' : (s'.forest.select s'.current).1 = none := by rw [h.select_eq, hselect]
    rw [turn_of_exhausted hselect, turn_of_exhausted hselect']
    exact .inr
      { h with
        forest := congrArg Prod.snd h.select_eq
        current := rfl }
  | some v =>
    have hselect' : (s'.forest.select s'.current).1 = some v := by rw [h.select_eq, hselect]
    cases hbridge : (s.selected.grow T s.residual.support v).1 with
    | none =>
      have hbridge' : (s'.selected.grow T s'.residual.support v).1 = none := by
        rw [h.grow_eq hc, hbridge]
      rw [turn_of_no_bridge hselect hbridge, turn_of_no_bridge hselect' hbridge']
      exact .inl (h.scanned hc v)
    | some bridge =>
      have hfinds : s.Finds T v bridge := ⟨hselect, hbridge⟩
      rw [turn_of_bridge hfinds, turn_of_bridge (h.finds hc hfinds)]
      exact .inl (h.augment hw hc hs hs' hfinds)

/-! ## All turns -/

/-- **Searches that begin in step end in step**, and are in step before every turn. -/
theorem run {final : Search (Signed w) n m} (h : s.Lockstep c s') (hw : 0 < w) (hc : 0 < c)
    (hs : s.Sound T total value) (hs' : s'.Sound T total' value')
    (hends : Loop.Ends (fun s => (Search.turn T s).toSum) s final) :
    ∃ final', Loop.InStep (fun s => (Search.turn T s).toSum) (fun s => (Search.turn T s).toSum)
      (Lockstep c) (Lockstep c) s s' final final' := by
  -- each turn needs both searches to be sound, and keeps them so
  obtain ⟨final', hstep⟩ : ∃ final', Loop.InStep (fun s => (Search.turn T s).toSum)
      (fun s => (Search.turn T s).toSum)
      (fun s s' => s.Lockstep c s' ∧ s.Sound T total value ∧ s'.Sound T total' value')
      (Lockstep c) s s' final final' :=
    hends.inStep ⟨h, hs, hs'⟩ fun {s s'} ⟨h, hs, hs'⟩ => by
      have hnext := hs.turn hw
      have hnext' := hs'.turn hw
      have hturn := h.turn hw hc hs hs'
      cases ht : Search.turn T s <;> cases ht' : Search.turn T s' <;> rw [ht, ht'] at hturn
      · exact .inr (Sum.liftRel_inr_inr.1 hturn)
      · cases hturn
      · cases hturn
      · rw [ht] at hnext
        rw [ht'] at hnext'
        exact .inl ⟨Sum.liftRel_inl_inl.1 hturn, hnext, hnext'⟩
  exact ⟨final', hstep.imp And.left id⟩

/-! ## The records of the searches -/

/-- **Searches in step are laid out in arenas that are multiples**, if what the searches do
not change is a multiple. -/
theorem multiple (h : s.Lockstep c s') {b b' : Arena (Signed w)}
    (htotal : b'.total.toInt = c * b.total.toInt) (hsolved : b'.isSolved = b.isSolved)
    (hevents : b'.events.map (Event.map Signed.toInt)
      = b.events.map (Event.map fun x => c * x.toInt)) :
    (b.laySearch T s).Multiple c (b'.laySearch T s') := by
  have hnodes : ((List.finRange n).map (NodeState.of T s'.residual s'.forest)).map
        (NodeState.map Signed.toInt)
      = ((List.finRange n).map (NodeState.of T s.residual s.forest)).map
        (NodeState.map fun x => c * x.toInt) := by
    rw [List.map_map, List.map_map, h.forest]
    exact List.map_congr_left fun v _ => by
      simp only [Function.comp_apply, NodeState.map, NodeState.of, h.residual.excess]
  have harcs : ((Arc.all m).map (ArcState.of T s'.residual)).map (ArcState.map Signed.toInt)
      = ((Arc.all m).map (ArcState.of T s.residual)).map (ArcState.map fun x => c * x.toInt) := by
    rw [List.map_map, List.map_map]
    exact List.map_congr_left fun a _ => by
      simp only [Function.comp_apply, ArcState.map, ArcState.of, h.residual.residual]
  unfold Arena.Multiple Arena.map Arena.laySearch Arena.lay
  dsimp only
  rw [hnodes, harcs, h.residual.flow, htotal, hsolved, h.forest, h.stats, List.map_append,
    List.map_append, h.events, hevents]

end Lockstep

end Search

/-! ## Networks that have their own numbers of nodes and edges -/

/-- The arcs of a topology are known by the nodes they start at. -/
theorem Topology.ext_tail {T' : Topology n m} (h : ∀ a, T'.tail a = T.tail a) : T' = T := by
  obtain ⟨ends, leaving, hleaving⟩ := T
  obtain ⟨ends', leaving', hleaving'⟩ := T'
  obtain rfl : ends' = ends := Vector.ext fun k hk =>
    Prod.ext (h ⟨⟨k, hk⟩, .forward⟩) (h ⟨⟨k, hk⟩, .backward⟩)
  obtain rfl : leaving' = leaving := Vector.ext fun v hv =>
    (hleaving' ⟨v, hv⟩).trans (hleaving ⟨v, hv⟩).symm
  rfl

/-- **Residual capacities that are multiples of others, over a topology of the same shape.**
Nodes and edges are known by their numbers. -/
structure Residual.Corresponds {n' m' : Nat} (c : Int) (T : Topology n m)
    (r : Residual (Signed w) n m) (T' : Topology n' m') (r' : Residual (Signed w) n' m') :
    Prop where
  /-- There are as many nodes. -/
  nodes : n' = n
  /-- There are as many edges. -/
  edges : m' = m
  /-- The arcs start at the same nodes. -/
  tail {k : Fin m} {k' : Fin m'} : k'.val = k.val →
    ∀ d, (T'.tail ⟨k', d⟩).val = (T.tail ⟨k, d⟩).val
  /-- What is left on each arc is multiplied. -/
  residual {k : Fin m} {k' : Fin m'} : k'.val = k.val →
    ∀ d, (r'.residual ⟨k', d⟩).toInt = c * (r.residual ⟨k, d⟩).toInt
  /-- So is what is left at the terminals of each node. -/
  excess {v : Fin n} {v' : Fin n'} : v'.val = v.val → (r'.excess v').toInt = c * (r.excess v).toInt
  /-- So is the flow. -/
  flow : r'.flow.toInt = c * r.flow.toInt

/-- **Two searches in step, as their records show it**: one is laid out in a multiple of the
arena of the other, and they have the same node at hand. -/
structure Search.InStep {n' m' : Nat} (c : Int) (T : Topology n m) (b : Arena (Signed w))
    (T' : Topology n' m') (b' : Arena (Signed w)) (s : Search (Signed w) n m)
    (s' : Search (Signed w) n' m') : Prop where
  /-- The records are those of a multiple. -/
  multiple : (b.laySearch T s).Multiple c (b'.laySearch T' s')
  /-- The current node has the same number. -/
  current : s'.current.map Fin.val = s.current.map Fin.val

/-- **Searches on such capacities go on in step.** -/
theorem Residual.Corresponds.inStep {n' m' : Nat} {T' : Topology n' m'}
    {r : Residual (Signed w) n m} {r' : Residual (Signed w) n' m'} (h : r.Corresponds c T T' r')
    (hw : 0 < w) (hc : 0 < c) (hr : r.Balanced total) (hr' : r'.Balanced total')
    {b b' : Arena (Signed w)} (htotal : b'.total.toInt = c * b.total.toInt)
    (hsolved : b'.isSolved = b.isSolved)
    (hevents : b'.events.map (Event.map Signed.toInt)
      = b.events.map (Event.map fun x => c * x.toInt))
    {final : Search (Signed w) n m}
    (hends : Loop.Ends (fun s => (Search.turn T s).toSum) (.start r) final) :
    ∃ final', Loop.InStep (fun s => (Search.turn T s).toSum) (fun s => (Search.turn T' s).toSum)
      (Search.InStep c T b T' b') (Search.InStep c T b T' b') (.start r) (.start r')
      final final' := by
  obtain ⟨rfl, rfl, htail, hresidual, hexcess, hflow⟩ := h
  obtain rfl : T' = T := Topology.ext_tail fun a => Fin.ext (htail rfl a.direction)
  have hscaled : r.Scaled c r' :=
    ⟨fun a => hresidual rfl a.direction, fun _ => hexcess rfl, hflow⟩
  obtain ⟨final', hstep⟩ := (Search.lockstep_start hscaled hc).run hw hc (Search.sound_start hr)
    (Search.sound_start hr') hends
  have hinStep {s s' : Search (Signed w) n' m'} (hs : s.Lockstep c s') :
      Search.InStep c T' b T' b' s s' :=
    ⟨hs.multiple htotal hsolved hevents, congrArg (Option.map Fin.val) hs.current⟩
  exact ⟨final', hstep.imp hinStep hinStep⟩

end MinCut
