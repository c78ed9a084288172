import MinCut.Proofs.Arena.Adoption
import MinCut.Proofs.Arena.Augmentation
import MinCut.Proofs.Arena.Growth
import MinCut.Proofs.Search.Run

/-!
# Searching an arena

A turn over an arena scans a node, augments the path it finds and mends the trees, and
none of it fails where the invariant of the search holds (`Arena.turn_lay`). So the loop
of turns ends with what `Search.run` gives (`Arena.run_turn_lay`).

The three cases of a turn are those of `Search.turn`. Selecting a node and scanning it can be done
in any forest, so their lemmas have no conditions. For augmenting a path there has to be one, and
for mending the trees they have to be broken in no other way than by the augmentation. Both follow
from `Search.Sound`, which every turn preserves.
-/

namespace MinCut

namespace Arena

variable {n m w : Nat} {T : Topology n m} {r : Residual (Signed w) n m}
variable {s : Search (Signed w) n m} {total : Int} {value : Finset Nat → Int}

/-- A search laid out in an arena with what had happened before. -/
def laySearch (b : Arena (Signed w)) (T : Topology n m) (s : Search (Signed w) n m) :
    Arena (Signed w) :=
  lay { b with stats := s.stats, events := s.events ++ b.events } T s.residual s.forest

/-- **Augmenting the path of a bridge** and mending the trees. -/
theorem mend_lay (b : Arena (Signed w)) {v : Fin n} {bridge : Arc m} (h : s.Sound T total value)
    (hw : 0 < w) (hfinds : s.Finds T v bridge) :
    ((b.laySearch T (s.scanned T v)).flag v true >>= fun t =>
        t.augment bridge.number >>= fun t => Loop.run round t)
      = some (b.laySearch T ((s.scanned T v).augment T v bridge)) := by
  have hp := (h.moved hw hfinds).1.of_place fun u =>
    Forest.place_flag (s.scanned T v).forest v u true
  let amount := (s.path T v bridge).bottleneck s.residual
  let stats := (s.scanned T v).stats
  let noted : Arena (Signed w) := { b with
    stats := { stats with augmentations := stats.augmentations + 1 }
    events := .augmented amount bridge.number (T.tail bridge) (T.head bridge)
      :: (s.events ++ b.events) }
  let after := (s.scanned T v).augment T v bridge
  unfold laySearch
  rw [flag_lay]
  show (augment (lay _ T s.residual ((s.scanned T v).forest.flag v true))
    (s.path T v bridge).bridge.number >>= _) = _
  rw [augment_lay _ hp]
  show Loop.run round (noted.layRepair T after.residual (.begin (s.severed T v bridge))) = _
  -- what has been told by then is the augmentation, and before it what had been told
  rw [run_round_lay noted (h.mending hw hfinds)]
  let repair := (s.severed T v bridge).adopt T after.residual.support
  have hevents : repair.expelled.map (fun u => Event.expelled u.val) ++ noted.events
      = after.events ++ b.events :=
    (List.append_assoc (repair.expelled.map fun u => .expelled u.val)
      (.augmented amount bridge.number (T.tail bridge) (T.head bridge) :: s.events) b.events).symm
  exact congrArg (fun events => some (lay { b with stats := after.stats, events } T after.residual
    after.forest)) hevents

/-- **One turn.** -/
theorem turn_lay (b : Arena (Signed w)) (h : s.Sound T total value) (hw : 0 < w) :
    turn (b.laySearch T s, s.current.map Fin.val) = some ((Search.turn T s).toSum.map
      (fun s => (b.laySearch T s, s.current.map Fin.val)) (b.laySearch T)) := by
  unfold turn
  dsimp only
  unfold laySearch
  rw [select_lay]
  -- there is no node to be scanned, or the scan finds nothing, or it finds a bridge
  cases hselect : (s.forest.select s.current).1 with
  | none =>
    rw [Search.turn_of_exhausted hselect]
    rw [show s.forest.select s.current = (none, s.selected) from Prod.ext hselect rfl]
    rfl
  | some v =>
    rw [show s.forest.select s.current = (some v, s.selected) from Prod.ext hselect rfl]
    show (grow _ v >>= _) = _
    rw [grow_lay]
    cases hbridge : (s.selected.grow T s.residual.support v).1 with
    | none =>
      rw [Search.turn_of_no_bridge hselect hbridge]
      rw [show s.selected.grow T s.residual.support v
        = (none, (s.selected.grow T s.residual.support v).2) from Prod.ext hbridge rfl]
      rfl
    | some bridge =>
      have hfinds : s.Finds T v bridge := ⟨hselect, hbridge⟩
      rw [Search.turn_of_bridge hfinds]
      rw [show s.selected.grow T s.residual.support v
        = (some bridge, (s.selected.grow T s.residual.support v).2) from Prod.ext hbridge rfl]
      -- the last steps of the turn are those of `mend_lay`, which are to be taken together first
      have hmend := mend_lay b h hw hfinds
      show ((b.laySearch T (s.scanned T v)).flag v true >>= fun t => t.augment bridge.number >>=
        fun t => Loop.run round t >>= fun t => pure (Sum.inl (t, some v.val))) = _
      calc
        _ = (((b.laySearch T (s.scanned T v)).flag v true >>= fun t => t.augment bridge.number >>=
          fun t => Loop.run round t) >>= fun t => pure (Sum.inl (t, some v.val))) := by
            simp only [bind_assoc]
        _ = _ := by rw [hmend]; rfl

/-- **The loop of turns** ends with what the search does. -/
theorem run_turn_lay (b : Arena (Signed w)) {final : Search (Signed w) n m}
    (h : s.Sound T total value) (hw : 0 < w)
    (hends : Loop.Ends (fun s => (Search.turn T s).toSum) s final) :
    Loop.run turn (b.laySearch T s, s.current.map Fin.val) = some (b.laySearch T final) := by
  refine hends.run_eq (fun s => (b.laySearch T s, s.current.map Fin.val)) (b.laySearch T)
    (Search.Sound T total value) h (fun {s s'} hs hnext => ⟨?_, ?_⟩) fun {s s'} hs hlast => ?_
  · rw [turn_lay b hs hw, hnext]
    rfl
  · exact (hs.more hw (Turn.toSum_eq_inl_iff.1 hnext)).1
  · rw [turn_lay b hs hw, hlast]
    rfl

end Arena

end MinCut
