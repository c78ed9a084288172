import MinCut.Proofs.Forest.Settling
import MinCut.Proofs.Search.Run

/-!
# What the events of a search tell

A search keeps counts, and it tells what happens. The two agree at every state that a
search goes through (`Search.Chronicled`): the flow has grown by the amounts that the
events tell of, each of which is positive, and there are as many events of a kind as have
been counted.

The counts are bounded by the number of augmentations. Each of them begins an adoption
pass, which settles no node twice. Between two of them a node that has been scanned in
vain is neither active nor free, and no scan makes it so again; so there are no more
scans in vain than nodes.
-/

namespace MinCut

open Finset

/-! ## Amounts and expulsions

The events of a search are kept with the latest first. The lemmas here read a log that is made up of
parts, and a log that is read backward, for the two kinds of events that are counted. -/

section Events

variable {α : Type}

/-- The amount that an augmentation has sent. -/
def Event.amount? : Event α → Option α
  | augmented amount .. => some amount
  | _ => none

/-- The node that has been expelled. -/
def Event.expelled? : Event α → Option Nat
  | expelled node => some node
  | _ => none

/-- The amounts sent, in the order of the events. -/
def amounts (events : List (Event α)) : List α := events.filterMap Event.amount?

/-- The nodes expelled, in the order of the events. -/
def expulsions (events : List (Event α)) : List Nat := events.filterMap Event.expelled?

/-- **No node is expelled twice between two augmentations**, before the first or after
the last. -/
def Apart (events : List (Event α)) : Prop :=
  ∀ ⦃part⦄, part <:+: events → amounts part = [] → (expulsions part).Nodup

variable {events : List (Event α)} {e : Event α}

/-- The amounts of one part of a log come before those of the next. -/
theorem amounts_append (events events' : List (Event α)) :
    amounts (events ++ events') = amounts events ++ amounts events' :=
  List.filterMap_append

/-- So do the nodes expelled. -/
theorem expulsions_append (events events' : List (Event α)) :
    expulsions (events ++ events') = expulsions events ++ expulsions events' :=
  List.filterMap_append

/-- A log that is read backward tells the amounts backward. -/
theorem amounts_reverse (events : List (Event α)) :
    amounts events.reverse = (amounts events).reverse :=
  List.filterMap_reverse

/-- So it does with the nodes expelled. -/
theorem expulsions_reverse (events : List (Event α)) :
    expulsions events.reverse = (expulsions events).reverse :=
  List.filterMap_reverse

/-- Nodes that are expelled one after the other have nothing sent between them. -/
theorem amounts_map_expelled (nodes : List Nat) :
    amounts (nodes.map (Event.expelled (α := α))) = [] := by
  induction nodes with
  | nil => rfl
  | cons v nodes ih => exact ih

/-- They are expelled in their order. -/
theorem expulsions_map_expelled (nodes : List Nat) :
    expulsions (nodes.map (Event.expelled (α := α))) = nodes := by
  induction nodes with
  | nil => rfl
  | cons v nodes ih => exact congrArg (v :: ·) ih

/-- Other events do not matter. -/
theorem Apart.cons (h : Apart events) (he : e.expelled? = none) : Apart (e :: events) := by
  intro part hpart hamounts
  rcases List.infix_cons_iff.1 hpart with hprefix | hinfix
  · rcases List.prefix_cons_iff.1 hprefix with rfl | ⟨rest, rfl, hrest⟩
    · exact List.nodup_nil
    · have hsame : expulsions (e :: rest) = expulsions rest := List.filterMap_cons_none he
      have hnone : amounts rest = [] := (List.append_eq_nil_iff.1
        ((amounts_append [e] rest).symm.trans hamounts)).2
      rw [hsame]
      exact h hrest.isInfix hnone
  · exact h hinfix hamounts

/-- Read backward, a part of a log is between the same augmentations. -/
theorem Apart.reverse (h : Apart events) : Apart events.reverse := by
  intro part hpart hamounts
  rw [← List.reverse_reverse part] at hpart hamounts ⊢
  rw [amounts_reverse, List.reverse_eq_nil_iff] at hamounts
  rw [expulsions_reverse]
  exact List.nodup_reverse.2 (h (List.reverse_infix.1 hpart) hamounts)

/-- **An adoption pass that expels no node twice** keeps augmentations apart. -/
theorem Apart.append (h : Apart events) {nodes : List Nat} (hnodes : nodes.Nodup)
    {amount : α} (he : e.amount? = some amount) (he' : e.expelled? = none) :
    Apart (nodes.map .expelled ++ e :: events) := by
  induction nodes with
  | nil => exact h.cons he'
  | cons v nodes ih =>
    have hrest := ih (List.nodup_cons.1 hnodes).2
    intro part hpart hamounts
    rcases List.infix_cons_iff.1 hpart with hprefix | hinfix
    · -- a part that goes beyond the nodes has an augmentation in it
      have hbefore : part <+: (v :: nodes).map .expelled := by
        rcases List.prefix_or_prefix_of_prefix hprefix
          (List.prefix_append ((v :: nodes).map .expelled) (e :: events)) with hle | ⟨more, rfl⟩
        · exact hle
        · rcases List.prefix_cons_iff.1 ((List.prefix_append_right_inj _).1 hprefix) with
            rfl | ⟨more, rfl, _⟩
          · rw [List.append_nil]
          · rw [amounts_append, amounts_map_expelled] at hamounts
            have hcons : amounts (e :: more) = amount :: amounts more :=
              List.filterMap_cons_some he
            exact absurd (hcons.symm.trans hamounts) (List.cons_ne_nil _ _)
      have hnodup := (hbefore.filterMap Event.expelled?).sublist
      rw [show ((v :: nodes).map Event.expelled).filterMap Event.expelled? = v :: nodes from
        expulsions_map_expelled (v :: nodes)] at hnodup
      exact hnodes.sublist hnodup
    · exact hrest hinfix hamounts

end Events

/-! ## The account of a search

An augmentation may make all nodes pending again. Between two augmentations each turn takes a node
away from those that are pending, so that there are no more such turns than nodes. The bounds of
`Search.Chronicled` say so, and each outcome of a turn keeps them. -/

variable {n m w : Nat} {T : Topology n m} {total : Int} {value : Finset Nat → Int}
variable {r : Residual (Signed w) n m} {s : Search (Signed w) n m} {v : Fin n}

namespace Search

/-- **The counts of a search agree with its events**, and the augmentations bound all
others. -/
structure Chronicled (r : Residual (Signed w) n m) (s : Search (Signed w) n m) : Prop where
  /-- The flow has grown by the amounts sent. -/
  flow_eq : s.residual.flow.toInt
    = r.flow.toInt + ((amounts s.events).map Signed.toInt).sum
  /-- Each of them is positive. -/
  amount_pos {x : Signed w} : x ∈ amounts s.events → 0 < x.toInt
  /-- The augmentations are counted. -/
  augmentations_eq : s.stats.augmentations = (amounts s.events).length
  /-- So are the nodes expelled. -/
  expelled_eq : s.stats.expelled = (expulsions s.events).length
  /-- The scans are counted by the time, too. -/
  growthSteps_eq : s.stats.growthSteps = s.forest.time
  /-- No node is expelled twice between two augmentations. -/
  apart : Apart s.events
  /-- The scans that may still be made in vain are counted beforehand. -/
  growthSteps_le : s.stats.growthSteps + #s.forest.pending
    ≤ s.stats.augmentations + (s.stats.augmentations + 1) * n
  /-- In each pass no more orphans are settled than there are nodes. -/
  settled_le : s.stats.adopted + s.stats.expelled ≤ s.stats.augmentations * n

/-- The last turn only looks for a node. -/
theorem Chronicled.exhausted (h : s.Chronicled r) (hs : s.Sound T total value)
    (hselect : (s.forest.select s.current).1 = none) :
    Chronicled r { s with forest := s.selected, current := none } := by
  have hend := (Forest.select_spec hs.forest).2 hselect
  have hpending : s.selected.pending ⊆ s.forest.pending := by
    intro u hu
    rcases Forest.mem_pending.1 hu with hactive | hfree
    · rcases (hend.sound.waiting.active_iff u).1 hactive with hmem | hnone
      · exact absurd (hend.queue_eq_nil ▸ hmem) List.not_mem_nil
      · exact absurd hnone (by simp)
    · exact Forest.mem_pending.2 (.inr ((congrArg Place.side? (hend.place u)).symm.trans hfree))
  exact {
    flow_eq := h.flow_eq
    amount_pos := h.amount_pos
    augmentations_eq := h.augmentations_eq
    expelled_eq := h.expelled_eq
    growthSteps_eq := h.growthSteps_eq.trans hend.time.symm
    apart := h.apart
    growthSteps_le := (Nat.add_le_add_left (card_le_card hpending) _).trans h.growthSteps_le
    settled_le := h.settled_le }

/-- A scan takes one step of time. -/
theorem Sound.time_scanned (h : s.Sound T total value)
    (hselect : (s.forest.select s.current).1 = some v) :
    (Search.scanned T v s).forest.time = s.forest.time + 1 := by
  have hselected := (Forest.select_spec h.forest).1 v hselect
  obtain ⟨side, hside⟩ := Option.ne_none_iff_exists'.1 hselected.side?_ne_none
  have hgrown := (Forest.grow_spec hselected.sound hside).1.grown
  exact congrArg (· + 1) (hgrown.time.trans hselected.time)

/-- **A scan in vain** leaves a node less to be scanned in vain. -/
theorem Chronicled.scanned (h : s.Chronicled r) (hs : s.Sound T total value)
    (hselect : (s.forest.select s.current).1 = some v) :
    (Search.scanned T v s).Chronicled r where
  flow_eq := h.flow_eq
  amount_pos := h.amount_pos
  augmentations_eq := h.augmentations_eq
  expelled_eq := h.expelled_eq
  growthSteps_eq := (congrArg (· + 1) h.growthSteps_eq).trans (hs.time_scanned hselect).symm
  apart := h.apart
  growthSteps_le := by
    have hfall := card_lt_card (hs.scanned hselect).pending_ssubset
    have hle := h.growthSteps_le
    show s.stats.growthSteps + 1 + #(Search.scanned T v s).forest.pending
      ≤ s.stats.augmentations + (s.stats.augmentations + 1) * n
    omega
  settled_le := h.settled_le

/-- What an augmentation tells, with the nodes expelled as they are told. -/
theorem events_augment_eq (s : Search (Signed w) n m) (v : Fin n) (bridge : Arc m) :
    (Search.augment T v bridge (Search.scanned T v s)).events
      = (((s.severed T v bridge).adopt T (Search.augment T v bridge
          (Search.scanned T v s)).residual.support).expelled.map Fin.val).map .expelled
        ++ .augmented ((s.path T v bridge).bottleneck s.residual) bridge.number (T.tail bridge)
          (T.head bridge) :: s.events := by
  rw [List.map_map]
  exact events_augment s v bridge

/-- An augmentation sends one amount more. -/
theorem amounts_augment (s : Search (Signed w) n m) (v : Fin n) (bridge : Arc m) :
    amounts (Search.augment T v bridge (Search.scanned T v s)).events
      = (s.path T v bridge).bottleneck s.residual :: amounts s.events := by
  rw [events_augment_eq, amounts_append, amounts_map_expelled]
  rfl

/-- The pass after it expels some nodes more. -/
theorem expulsions_augment (s : Search (Signed w) n m) (v : Fin n) (bridge : Arc m) :
    expulsions (Search.augment T v bridge (Search.scanned T v s)).events
      = ((s.severed T v bridge).adopt T (Search.augment T v bridge
          (Search.scanned T v s)).residual.support).expelled.map Fin.val
        ++ expulsions s.events := by
  rw [events_augment_eq, expulsions_append, expulsions_map_expelled]
  rfl

/-- **An augmentation** tells the amount sent, and then the nodes expelled in the pass that
follows. -/
theorem Chronicled.augment {bridge : Arc m} (h : s.Chronicled r) (hs : s.Sound T total value)
    (hw : 0 < w) (hfinds : s.Finds T v bridge) :
    (Search.augment T v bridge (Search.scanned T v s)).Chronicled r := by
  obtain ⟨-, hx, hmoved⟩ := hs.moved hw hfinds
  have hmending := hs.mending hw hfinds
  have hcounted := hmending.adopt_counted
  have htime : (Search.augment T v bridge (Search.scanned T v s)).forest.time
      = (Search.scanned T v s).forest.time :=
    (Repair.run_mending T _ (.begin _) hmending).2.2.time.trans (Forest.time_cut _)
  have hscanned := h.scanned hs hfinds.select_eq
  have hevents := events_augment_eq s v bridge (T := T)
  have hamounts := amounts_augment s v bridge (T := T)
  have hexpulsions := expulsions_augment s v bridge (T := T)
  set repair := (s.severed T v bridge).adopt T
    (Search.augment T v bridge (Search.scanned T v s)).residual.support
  exact {
    flow_eq := by
      rw [hmoved.flow, hamounts, h.flow_eq, List.map_cons, List.sum_cons]
      omega
    amount_pos := fun {x} hmem => by
      rw [hamounts] at hmem
      rcases List.mem_cons.1 hmem with rfl | hmem
      · exact hx.pos
      · exact h.amount_pos hmem
    augmentations_eq := by
      rw [hamounts, List.length_cons, ← h.augmentations_eq]
      rfl
    expelled_eq := by
      rw [hexpulsions, List.length_append, List.length_map, ← h.expelled_eq, Nat.add_comm]
      rfl
    growthSteps_eq := hscanned.growthSteps_eq.trans htime.symm
    apart := by
      rw [hevents]
      exact h.apart.append (hcounted.nodup.map Fin.val_injective) rfl rfl
    -- nodes may be scanned in vain again, but no more of them than there are
    growthSteps_le := by
      have hpending :=
        (Search.augment T v bridge (Search.scanned T v s)).forest.card_pending_le
      have hle : (Search.scanned T v s).stats.growthSteps + _
        ≤ s.stats.augmentations + (s.stats.augmentations + 1) * n := hscanned.growthSteps_le
      show (Search.scanned T v s).stats.growthSteps + _
        ≤ s.stats.augmentations + 1 + (s.stats.augmentations + 1 + 1) * n
      rw [Nat.succ_mul (s.stats.augmentations + 1)]
      omega
    -- the pass has settled no node twice
    settled_le := by
      have hle := h.settled_le
      have hcount := hcounted.count_le
      show s.stats.adopted + repair.adopted + (s.stats.expelled + repair.expelled.length)
        ≤ (s.stats.augmentations + 1) * n
      rw [Nat.succ_mul]
      omega }

end Search

end MinCut
