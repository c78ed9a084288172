import MinCut.Proofs.Forest.Nearest
import MinCut.Proofs.Forest.Pass
import MinCut.Proofs.Search.Anchored

/-!
# Which orphans are hung up again

A pass counts its adoptions. An orphan is adopted by its terminal if capacity is left there, or
else over an arc. But no orphan has capacity left at a terminal, so the first never happens, and
the count is the number of the nodes that the pass takes off its line and hangs from an arc
(`Repair.adopted_run`). They are different nodes, since no node is settled twice.
-/

namespace MinCut

open Finset

variable {n m : Nat} {T : Topology n m} {S : Support n m}

namespace Repair

variable {r r' : Repair n m} {current : Option (Fin n)} {v : Fin n}

/-- **A pass hangs a node from an arc**: in one of its rounds it takes the node off the line,
and the node has an arc to a parent afterwards. -/
def Reattaches (T : Topology n m) (S : Support n m) (r : Repair n m) (v : Fin n) : Prop :=
  ∃ r' orphans a, Visited T S r r' ∧ r'.forest.orphans.popFront? = some (v, orphans)
    ∧ (round T S r').state.forest.link? v = some (.arc a)

/-- The states of a pass are the one with which it begins and those after the first round. -/
theorem visited_iff : Visited T S r r' ↔ r' = r ∨ Visited T S (round T S r).state r' := by
  constructor
  · intro h
    induction h with
    | begin => exact .inl rfl
    | round _ ih =>
      rcases ih with rfl | hlater
      · exact .inr .begin
      · exact .inr hlater.round
  · rintro (rfl | h)
    · exact .begin
    · induction h with
      | begin => exact .round .begin
      | round _ ih => exact ih.round

/-- A pass that is over stays where it is. -/
theorem eq_of_visited (hpop : r.forest.orphans.popFront? = none) (h : Visited T S r r') :
    r' = r := by
  induction h with
  | begin => rfl
  | round _ ih =>
    subst ih
    rw [round_of_none hpop]
    rfl

/-- It hangs up no node any more. -/
theorem not_reattaches_of_none (hpop : r.forest.orphans.popFront? = none) (v : Fin n) :
    ¬Reattaches T S r v := by
  rintro ⟨r', orphans, a, hr', hpop', -⟩
  rw [eq_of_visited hpop hr', hpop] at hpop'
  cases hpop'

/-- **A node that is settled is never taken off the line again.** -/
theorem not_reattaches_of_settled (hr : r.forest.Mending T S current none)
    (hv : r.forest.Settled T v) : ¬Reattaches T S r v := by
  rintro ⟨r', orphans, a, hr', hpop, -⟩
  obtain ⟨hmending, hmended⟩ := hr'.mending hr
  exact (hmended.settled hv).link?_ne_orphan (hmending.pop hpop).1

/-- What a pass hangs up, it hangs up in its first round or after it. -/
theorem reattaches_iff {orphans : Deque (Fin n)}
    (hpop : r.forest.orphans.popFront? = some (v, orphans)) (u : Fin n) :
    Reattaches T S r u ↔ (u = v ∧ ∃ a, (round T S r).state.forest.link? v = some (.arc a))
      ∨ Reattaches T S (round T S r).state u := by
  constructor
  · rintro ⟨r', orphans', a, hr', hpop', ha⟩
    rcases visited_iff.1 hr' with rfl | hlater
    · rw [hpop] at hpop'
      cases hpop'
      exact .inl ⟨rfl, a, ha⟩
    · exact .inr ⟨r', orphans', a, hlater, hpop', ha⟩
  · rintro (⟨rfl, a, ha⟩ | ⟨r', orphans', a, hr', hpop', ha⟩)
    · exact ⟨r, orphans, a, .begin, hpop, ha⟩
    · exact ⟨r', orphans', a, visited_iff.2 (.inr hr'), hpop', ha⟩

open Classical in
/-- **The nodes that a pass hangs from an arc.** -/
noncomputable def reattached (T : Topology n m) (S : Support n m) (r : Repair n m) :
    Finset (Fin n) :=
  univ.filter fun v => Reattaches T S r v

open Classical in
/-- Whether a node is one of them. -/
theorem mem_reattached : v ∈ reattached T S r ↔ Reattaches T S r v := mem_filter_univ v

/-- **A round counts the node that it hangs from an arc.** -/
theorem adopted_round {orphans : Deque (Fin n)} {s : Side}
    (hr : r.forest.Mending T S current none) (hanchored : r.forest.Anchored S)
    (hpop : r.forest.orphans.popFront? = some (v, orphans))
    (hplace : r.forest.place v = .tree s .orphan) :
    (round T S r).state.adopted + #(reattached T S (round T S r).state)
      = r.adopted + #(reattached T S r) := by
  have houtcome := round_outcome hr hpop hplace (hanchored.terminal_ne hplace s)
  by_cases hfoothold : ∃ a d, r.forest.Foothold T S v s (.arc a) d
  · -- the round hangs its node from an arc, and that node is never hung up again
    obtain ⟨a, ha⟩ := houtcome.adopted_iff.2 hfoothold
    have hnew : v ∉ reattached T S (round T S r).state := fun hmem =>
      not_reattaches_of_settled (state_round_mending hr).1 (state_round_settled hr hpop)
        (mem_reattached.1 hmem)
    have hinsert : reattached T S r = insert v (reattached T S (round T S r).state) := by
      ext u
      rw [mem_insert, mem_reattached, mem_reattached, reattaches_iff hpop]
      exact or_congr_left (and_iff_left ⟨a, Forest.link?_of_place ha⟩)
    rw [hinsert, card_insert_of_notMem hnew, (houtcome.adopted ha).1]
    omega
  · -- it hangs up nothing
    have hfree := houtcome.released_iff.2 hfoothold
    have hsame : reattached T S r = reattached T S (round T S r).state := by
      ext u
      rw [mem_reattached, mem_reattached, reattaches_iff hpop]
      refine or_iff_right ?_
      rintro ⟨-, a, ha⟩
      rw [Forest.link?_eq, hfree] at ha
      cases ha
    rw [hsame, (houtcome.released hfree).1]

/-- **A pass counts the nodes that it hangs from an arc.** -/
theorem adopted_run (hr : r.forest.Mending T S current none) (hanchored : r.forest.Anchored S) :
    (r.run T S).adopted = r.adopted + #(reattached T S r) := by
  induction r using Repair.run.induct T S with
  | case1 r r' hround =>
    obtain ⟨rfl, hnil⟩ := round_done hr hround
    have hnone : reattached T S r' = ∅ := eq_empty_of_forall_notMem fun v hv =>
      not_reattaches_of_none (Deque.popFront?_eq_none_iff.2 hnil) v (mem_reattached.1 hv)
    rw [run_of_done hround, hnone, card_empty, Nat.add_zero]
  | case2 r r' hround ih =>
    obtain ⟨hmending, hmended⟩ := round_mending hr hround
    rcases round_cases hr with ⟨-, hdone⟩ | ⟨v, s, orphans, hpop, hplace, -, -, -⟩
    · exact absurd (hdone.symm.trans hround) (by simp)
    · have hstep := adopted_round hr hanchored hpop hplace
      rw [hround] at hstep
      rw [run_of_more hround, ih hmending (hanchored.mended hmended)]
      exact hstep

end Repair

end MinCut
