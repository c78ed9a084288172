import MinCut.Proofs.Forest.Invariant

/-!
# Activating nodes

A node is queued unless its flag says that it waits already, so that the queue
never lists a node twice. Both growth and adoption rely on it.

Since the flag decides whether a node is queued, whatever holds of the queue is proved together with
the flags (`Waiting.activate`). Activating a node can only make nodes active, so a node that had
nothing to grow into has nothing to grow into afterwards (`Quiet.activate`), and it concerns neither
links nor stamps.
-/

namespace MinCut

namespace Forest

variable {n m : Nat} {T : Topology n m} {S : Support n m} {f : Forest n m}
variable {current : Option (Fin n)}

/-- Activating a node keeps what waits in order. If it waits already nothing is done, and otherwise
it is not in the queue, so that it can be put there. -/
theorem Waiting.activate (hf : f.Waiting current) (v : Fin n) :
    (f.activate v).Waiting current := by
  unfold Forest.activate
  split
  · exact hf
  · rename_i hidle
    -- a node that is not flagged is neither queued nor current
    have hv : v ∉ f.queue.toList ∧ current ≠ some v := by
      rw [hf.active_iff, not_or] at hidle
      exact hidle
    refine ⟨?_, fun w => ?_, fun {w} hw => ?_⟩
    · show (f.queue.pushBack v).toList.Nodup
      rw [Deque.toList_pushBack, List.nodup_append]
      refine ⟨hf.nodup, List.nodup_singleton v, fun w hw u hu => ?_⟩
      rw [List.mem_singleton.1 hu]
      rintro rfl
      exact hv.1 hw
    · show ((f.flag v true).label w).active = true ↔ w ∈ (f.queue.pushBack v).toList ∨ _
      rw [label_flag, Deque.toList_pushBack, List.mem_append, List.mem_singleton]
      by_cases h : w = v
      · simp [h]
      · rw [if_neg h, hf.active_iff]
        simp [h]
    · show w ∉ (f.queue.pushBack v).toList
      rw [Deque.toList_pushBack, List.mem_append, List.mem_singleton]
      rintro (hq | rfl)
      · exact hf.not_queued hw hq
      · exact hv.2 hw

/-- The nodes that are active after one has been activated. -/
theorem active_activate (f : Forest n m) (v w : Fin n) :
    ((f.activate v).label w).active = true ↔ w = v ∨ (f.label w).active = true := by
  rw [label_activate]
  by_cases h : w = v
  · simp [h]
  · simp [h]

/-- Activating a node makes no orphan. -/
theorem orphans_activate (f : Forest n m) (v : Fin n) :
    (f.activate v).orphans = f.orphans := by
  unfold Forest.activate
  split <;> rfl

/-- It lets no time pass. -/
theorem time_activate (f : Forest n m) (v : Fin n) : (f.activate v).time = f.time := by
  unfold Forest.activate
  split <;> rfl

/-- Stamps stay right whatever flag is set or cleared. -/
theorem Stamped.flag (hf : f.Stamped T) (v : Fin n) (b : Bool) : (f.flag v b).Stamped T := by
  refine hf.congr (label_update_congr Label.stamp (fun _ => by rfl) f v)
    (label_update_congr Label.distance (fun _ => by rfl) f v) rfl (fun w hw => ?_)
    fun w d hd => hd.congr fun u _ _ => congrArg Place.link? (place_flag f v u b)
  rwa [side?_flag] at hw

/-- Activating a node changes no stamp. -/
theorem Stamped.activate (hf : f.Stamped T) (v : Fin n) : (f.activate v).Stamped T := by
  refine hf.congr (fun w => ?_) (fun w => ?_) (time_activate f v) (fun w hw => ?_)
    fun w d hd => hd.congr fun u _ _ => congrArg Place.link? (place_activate f v u)
  · rw [label_activate_eq_flag]
    exact label_update_congr Label.stamp (fun _ => by rfl) f v w
  · rw [label_activate_eq_flag]
    exact label_update_congr Label.distance (fun _ => by rfl) f v w
  · rwa [side?_activate] at hw

/-- Activating a node makes no other node inactive, so those that are inactive were so before and
have nothing to grow into. -/
theorem Quiet.activate {busy : Option (Fin n)} (hf : f.Quiet T S busy) (v : Fin n) :
    (f.activate v).Quiet T S busy := by
  intro w r hw hidle hbusy a ha hlive
  rw [side?_activate] at hw ⊢
  have hidle' : ¬(w = v ∨ (f.label w).active = true) := by
    rw [← active_activate, hidle]
    exact Bool.false_ne_true
  rw [not_or, Bool.not_eq_true] at hidle'
  exact hf hw hidle'.2 hbusy ha hlive

end Forest

end MinCut
