import MinCut.Proofs.Forest.Dating
import MinCut.Proofs.Forest.Queueing
import MinCut.Proofs.Graph.Adoption

/-!
# The noted distances over a whole search

Every node has a distance noted, but most of them are out of date. Between two turns of a search
the stamps tell which are not (`Forest.Labelled`): no stamp grows along a link from parent to
child, and a node that is stamped like its root has its depth noted.

Before a pass begins, time has passed by a scan, and all stamps are old. In the pass the nodes
that are stamped anew make up whole chains, with no orphan and no free node among them, and their
distances are their depths, before and after each round and each search for a distance
(`Graph.search_dated`). This is why a trace may stop at the first of them, and why no orphan is
ever hung from a node below it.
-/

namespace MinCut

variable {n m w : Nat} {T : Topology n m} {total : Int} {value : Finset Nat → Int}

namespace Forest

variable {S : Support n m} {f : Forest n m}

/-- Before the search the roots are at distance one, and no node has a parent. -/
theorem initial_dated (T : Topology n m) (S : Support n m) : (initial S).Dated T := by
  have hroot {v : Fin n} {l : Link m} (hv : (initial S).link? v = some l) :
      l = .terminal ∧ ((initial S).label v).distance = 1 := by
    obtain ⟨s, -, hlabel⟩ := label_initial_of_side? (side?_ne_none_of_link? hv)
    rw [link?_eq, place, hlabel] at hv
    rw [hlabel]
    exact ⟨(Option.some.inj hv).symm, rfl⟩
  exact ⟨fun hv => (hroot hv).2, fun hv => absurd (hroot hv).1 (by simp),
    fun hv => absurd (hroot hv).1 (by simp)⟩

/-- **What the noted distances mean** between two turns of a search. -/
structure Labelled (T : Topology n m) (f : Forest n m) : Prop extends Dated T f where
  /-- No stamp is from the future. -/
  stamp_le_time (v : Fin n) : (f.label v).stamp ≤ f.time
  /-- The links from a node of a tree lead to its root, -/
  climb {v : Fin n} : f.side? v ≠ none → Climb T f v (f.leg T v)
  /-- and with the link to the terminal they make up its depth. -/
  depth {v : Fin n} : f.side? v ≠ none → f.Depth T v ((f.leg T v).links.length + 1)
  /-- This is the distance noted, if the node is stamped like its root. -/
  distance_eq_length {v : Fin n} : f.side? v ≠ none →
    (f.label v).stamp = (f.label (f.leg T v).root).stamp →
      (f.label v).distance = (f.leg T v).links.length + 1

/-- In a sound forest this follows from what is noted along the links. -/
theorem Sound.labelled {current busy : Option (Fin n)} (h : f.Sound T S current busy)
    (hf : f.Dated T) : f.Labelled T := by
  have hclimb {v : Fin n} (hv : f.side? v ≠ none) : Climb T f v (f.leg T v) := by
    obtain ⟨d, hd⟩ := h.exists_depth hv
    exact hd.climb_leg
  exact ⟨hf, h.stamped.stamp_le, hclimb, fun hv => (hclimb hv).depth,
    fun hv => (hclimb hv).distance_eq hf⟩

end Forest

namespace Search

variable {r : Residual (Signed w) n m} {s : Search (Signed w) n m} {v : Fin n} {bridge : Arc m}

/-! ## One turn -/

/-- Selecting a node shows in flags only. -/
theorem dated_selected (hs : s.forest.Dated T) : s.selected.Dated T := by
  obtain ⟨off, hoff⟩ := s.forest.exists_polled_select s.current
  have hlabel (u : Fin n) : s.selected.label u
      = { s.forest.label u with active := (s.selected.label u).active } := hoff.label_eq u
  refine hs.fades (.of_place (fun u => .inl ?_) (fun u => ?_) fun u => ?_)
  · rw [Forest.place, hlabel]
    rfl
  · rw [hlabel]
  · rw [hlabel]

/-- A scan notes what is right. -/
theorem Sound.dated_scanned (h : s.Sound T total value)
    (hselect : (s.forest.select s.current).1 = some v) (hs : s.forest.Dated T) :
    (Search.scanned T v s).forest.Dated T := by
  have hg := (Forest.select_spec h.forest).1 v hselect
  obtain ⟨side, hside⟩ := Option.ne_none_iff_exists'.1 hg.side?_ne_none
  have hgrown := (dated_selected hs).grow (S := s.residual.support) hg.sound.linked hside
  exact ⟨hgrown.root, hgrown.stamp_le, hgrown.distance_eq⟩

/-- **When a pass begins all stamps are old.** -/
theorem Sound.stamp_severed_lt (h : s.Sound T total value) (hfinds : s.Finds T v bridge)
    (u : Fin n) : ((s.severed T v bridge).label u).stamp < (s.severed T v bridge).time := by
  unfold severed
  rw [Forest.stamp_cut, Forest.time_cut, Forest.label_flag]
  split
  · exact (h.found hfinds).stamp_lt v
  · exact (h.found hfinds).stamp_lt u

/-- What is noted then is right. -/
theorem Sound.fresh_severed (h : s.Sound T total value) (hfinds : s.Finds T v bridge)
    (hs : s.forest.Dated T) : (s.severed T v bridge).Fresh T := by
  refine ⟨(h.dated_scanned hfinds.select_eq hs).fades (.of_place (fun u => ?_) (fun u => ?_)
    fun u => ?_), fun {u} _ => h.stamp_severed_lt hfinds u⟩
  · unfold severed
    rw [Forest.place_cut, Forest.place_flag]
    split
    · exact .inr (.inr rfl)
    · exact .inl rfl
  · unfold severed
    rw [Forest.stamp_cut]
    exact Forest.label_update_congr Label.stamp (fun _ => by rfl) _ v u
  · unfold severed
    rw [Forest.label_cut]
    have hflag : (((Search.scanned T v s).forest.flag v true).label u).distance
        = ((Search.scanned T v s).forest.label u).distance :=
      Forest.label_update_congr Label.distance (fun _ => by rfl) _ v u
    split
    · exact hflag
    · exact hflag

/-- **A turn notes what is right.** -/
theorem Sound.dated_turn (h : s.Sound T total value) (hw : 0 < w) (hs : s.forest.Dated T) :
    (Search.turn T s).state.forest.Dated T := by
  cases hselect : (s.forest.select s.current).1 with
  | none =>
    -- the search is over
    rw [turn_of_exhausted hselect]
    exact dated_selected hs
  | some v =>
    cases hbridge : (s.selected.grow T s.residual.support v).1 with
    | none =>
      -- the turn ends with the scan
      rw [turn_of_no_bridge hselect hbridge]
      exact h.dated_scanned hselect hs
    | some bridge =>
      -- it goes on with a pass
      have hfinds : s.Finds T v bridge := ⟨hselect, hbridge⟩
      rw [turn_of_bridge hfinds]
      exact ((Repair.visited_run T _ (.begin _)).fresh (h.fresh_severed hfinds hs)
        (h.mending hw hfinds)).toDated

/-- **What is noted is right at every state of a search.** -/
theorem Visited.dated (h : Visited T r s) (hw : 0 < w) (hr : r.Balanced total) :
    s.forest.Dated T := by
  induction h with
  | start => exact Forest.initial_dated T r.support
  | turn hs ih => exact (hs.sound hw hr).dated_turn hw ih

end Search

/-- **What is noted at a state of a search**: distances between two turns, stamps when a pass
begins, and distances at each state of the pass. -/
structure Search.Dated (T : Topology n m) (s : Search (Signed w) n m) : Prop where
  labelled : s.forest.Labelled T
  passes : s.EachPass T fun r f => (∀ u, (f.label u).stamp < f.time)
    ∧ ∀ R, Repair.Visited T r.support (.begin f) R → R.Trusting T r.support

namespace Graph

/-- **The noted distances mean what they should**, at every state of a search and of each pass. -/
theorem search_dated (hw : 0 < w) (calls : List (Call (Signed w)))
    (hcalls : ∀ c ∈ calls, c.builds = true) :
    Builds calls fun net => net.Throughout (Search.Dated net.topology) := by
  refine builds_throughout hw hcalls fun hbalanced s hs => ?_
  have hsound := hs.sound hw hbalanced
  have hdated := hs.dated hw hbalanced
  refine ⟨hsound.forest.labelled hdated, hsound.eachPass hw fun hfinds => ?_⟩
  have hmending := hsound.mending hw hfinds
  exact ⟨hsound.stamp_severed_lt hfinds, fun R hR => Repair.trusting
    (hR.fresh (hsound.fresh_severed hfinds hdated) hmending) (hR.mending hmending).1⟩

/-- The calls of `detour` that come before the search. Its first pass goes through a state in which
an orphan has been adopted, and its distance noted. -/
theorem search_dated_detour : (0 < 8 ∧ ∀ c ∈ detour.take 7, c.builds = true)
    ∧ Builds (detour.take 7) fun net => net.Throughout (Search.Dated net.topology)
      ∧ net.Sometimes fun s => s.SomePass net.topology fun R =>
        R.adopted = 1 ∧ R.expelled.map Fin.val = [0] := by
  have hw : 0 < 8 := by decide
  have hcalls : ∀ c ∈ detour.take 7, c.builds = true := by decide
  exact ⟨⟨hw, hcalls⟩, (search_dated hw (detour.take 7) hcalls).and builds_detour_adopted⟩

end Graph

end MinCut
