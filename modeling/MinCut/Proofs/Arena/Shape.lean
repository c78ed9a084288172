import MinCut.Proofs.Arena.Calls
import Mathlib.Logic.Relation

/-!
# What the search leaves as it is

The search over plain records writes into nodes and arcs all the time: trees and links, marks,
flags, and what is left of the capacities. Which arcs leave a node, where an arc leads and
which one is its sister it never touches. So the arena keeps its shape, whatever part of the
search is executed (`Arena.Executes.sameShape`).

This needs no invariant. A function of the search that does not panic keeps the shape of every
arena, sensible or not (`Arena.Keeps`), so that the functions can be looked at one by one, in
the order in which they call each other.

There is a lemma for each function, and its proof has the shape of the function: a lookup is
`Keeps.read`, a write that is followed by something else is `Keeps.bind`, a choice is `Keeps.ite`,
and the passes over lists and the loops have their own rules (`Keeps.foldlM`, `Keeps.loop`). At the
bottom are the writes to a single record, which leave the lists, heads and sisters alone
(`Arena.updateNode_keeps`, `Arena.updateArc_keeps`).
-/

namespace MinCut

namespace Arena

variable {α β γ σ ρ : Type}

/-- **Arenas of the same shape**: the same arcs leave the nodes and lead to them, and they are
sisters of the same arcs. -/
structure SameShape (s t : Arena α) : Prop where
  /-- The nodes list the same arcs. -/
  leaving_eq : t.nodes.map NodeState.arcs = s.nodes.map NodeState.arcs
  /-- The arcs lead to the same nodes. -/
  heads_eq : t.arcs.map ArcState.head = s.arcs.map ArcState.head
  /-- They have the same sisters. -/
  sisters_eq : t.arcs.map ArcState.sister = s.arcs.map ArcState.sister

variable {s t u : Arena α}

/-- What is neither a node nor an arc is not part of the shape. -/
theorem SameShape.of_eq (hnodes : t.nodes = s.nodes) (harcs : t.arcs = s.arcs) : s.SameShape t :=
  ⟨by rw [hnodes], by rw [harcs], by rw [harcs]⟩

/-- An arena has its own shape. -/
@[refl] theorem SameShape.refl (s : Arena α) : s.SameShape s := .of_eq rfl rfl

/-- What has the shape of an arena of the same shape has the same shape. -/
@[trans] theorem SameShape.trans (h : s.SameShape t) (h' : t.SameShape u) : s.SameShape u :=
  ⟨h'.leaving_eq.trans h.leaving_eq, h'.heads_eq.trans h.heads_eq,
    h'.sisters_eq.trans h.sisters_eq⟩

/-- **A computation keeps the shape of an arena** if it leads to arenas of this shape only.
What it gives shows the arena it has led to. -/
def Keeps (s : Arena α) (arena : β → Arena α) (result : Option β) : Prop :=
  ∀ b, result = some b → s.SameShape (arena b)

namespace Keeps

variable {arena : β → Arena α} {arena' : γ → Arena α} {result : Option β}
variable {next : β → Option γ}

/-- A computation that gives what is of the same shape already. -/
theorem pure {b : β} (h : s.SameShape (arena b)) : Keeps s arena (some b) := by
  intro c hc
  cases hc
  exact h

/-- A computation after writes that cannot fail. -/
theorem after (h : Keeps t arena result) (hst : s.SameShape t) : Keeps s arena result :=
  fun b hb => hst.trans (h b hb)

/-- One computation after another one. -/
theorem bind (h : Keeps s arena result) (hnext : ∀ b, Keeps (arena b) arena' (next b)) :
    Keeps s arena' (result >>= next) := by
  intro c hc
  obtain ⟨b, hb, hc⟩ := Option.bind_eq_some_iff.1 hc
  exact (h b hb).trans (hnext b c hc)

/-- A computation after a lookup. -/
theorem read (hnext : ∀ b, Keeps s arena' (next b)) : Keeps s arena' (result >>= next) := by
  intro c hc
  obtain ⟨b, _, hc⟩ := Option.bind_eq_some_iff.1 hc
  exact hnext b c hc

/-- One of two computations. -/
theorem ite {c : Prop} [Decidable c] {other : Option β} (h : Keeps s arena result)
    (h' : Keeps s arena other) : Keeps s arena (if c then result else other) := by
  split
  · exact h
  · exact h'

/-- A pass over a list, from what each of its steps does. -/
theorem foldlM {step : β → γ → Option β} (h : ∀ b c, Keeps (arena b) arena (step b c))
    (cs : List γ) (b : β) : Keeps (arena b) arena (cs.foldlM step b) := by
  -- by induction on the list, from whatever the steps before have led to
  induction cs generalizing b with
  | nil => exact .pure (.refl _)
  | cons c cs ih => exact (h b c).bind ih

/-- A loop, from what its body does. -/
theorem loop {body : σ → Option (σ ⊕ ρ)} {state : σ → Arena α} {final : ρ → Arena α}
    (h : ∀ x, Keeps (state x) (Sum.elim state final) (body x)) (x : σ) :
    Keeps (state x) final (Loop.run body x) := by
  -- a loop that ends has run its body finitely often, so there is an induction on its runs
  refine fun r hr => Loop.run.partial_correctness body
    (fun x r => (state x).SameShape (final r)) (fun loop hloop x r hr => ?_) x r hr
  obtain ⟨y, hy, hr⟩ := Option.bind_eq_some_iff.1 hr
  have hfirst := h x y hy
  cases y with
  | inl x' => exact hfirst.trans (hloop x' r hr)
  | inr r' =>
    cases hr
    exact hfirst

end Keeps

/-! ## Writing -/

/-- A list whose entries are read in a way that shows no difference after a write. -/
theorem map_set_of_eq {f : β → γ} {l : List β} {i : Nat} (hi : i < l.length) {x : β}
    (hx : f x = f l[i]) : (l.set i x).map f = l.map f := by
  rw [List.map_set, hx, ← List.getElem_map f (h := by rwa [List.length_map]),
    List.set_getElem_self]

/-- A write to a node that leaves its list of arcs alone. -/
theorem updateNode_keeps {change : NodeState α → NodeState α}
    (hchange : ∀ node, (change node).arcs = node.arcs) (s : Arena α) (i : Nat) :
    Keeps s id (s.updateNode i change) := by
  intro t ht
  obtain ⟨node, hnode, ht⟩ := Option.bind_eq_some_iff.1 ht
  cases ht
  obtain ⟨hi, rfl⟩ := List.getElem?_eq_some_iff.1 hnode
  exact ⟨map_set_of_eq hi (hchange _), rfl, rfl⟩

/-- A write to an arc that leaves its head and its sister alone. -/
theorem updateArc_keeps {change : ArcState α → ArcState α}
    (hhead : ∀ arc, (change arc).head = arc.head)
    (hsister : ∀ arc, (change arc).sister = arc.sister) (s : Arena α) (a : Nat) :
    Keeps s id (s.updateArc a change) := by
  intro t ht
  obtain ⟨arc, harc, ht⟩ := Option.bind_eq_some_iff.1 ht
  cases ht
  obtain ⟨ha, rfl⟩ := List.getElem?_eq_some_iff.1 harc
  exact ⟨rfl, map_set_of_eq ha (hhead _), map_set_of_eq ha (hsister _)⟩

/-- Hanging a node into a tree. -/
theorem attach_keeps (s : Arena α) (i : Nat) (tree : Option Side) (parent : Parent)
    (stamp distance : Nat) : Keeps s id (s.attach i tree parent stamp distance) :=
  updateNode_keeps (fun _ => by rfl) s i

/-- Noting a distance. -/
theorem mark_keeps (s : Arena α) (i distance : Nat) : Keeps s id (s.mark i distance) :=
  updateNode_keeps (fun _ => by rfl) s i

/-- Setting or clearing a flag. -/
theorem flag_keeps (s : Arena α) (i : Nat) (active : Bool) : Keeps s id (s.flag i active) :=
  updateNode_keeps (fun _ => by rfl) s i

/-- Queueing a node. -/
theorem activate_keeps (s : Arena α) (i : Nat) : Keeps s id (s.activate i) :=
  .read fun _ => .ite (.pure (.refl s)) ((flag_keeps s i true).bind fun _ => .pure (.of_eq rfl rfl))

/-- Cutting a node off. -/
theorem sever_keeps (s : Arena α) (i : Nat) : Keeps s id (s.sever i) :=
  updateNode_keeps (fun _ => by rfl) s i

/-- Making it the first orphan. -/
theorem orphanFront_keeps (s : Arena α) (i : Nat) : Keeps s id (s.orphanFront i) :=
  (sever_keeps s i).bind fun _ => .pure (.of_eq rfl rfl)

/-- Making it the last. -/
theorem orphanBack_keeps (s : Arena α) (i : Nat) : Keeps s id (s.orphanBack i) :=
  (sever_keeps s i).bind fun _ => .pure (.of_eq rfl rfl)

/-- Cutting a node off if nothing is left of its link. -/
theorem cutOff_keeps (s : Arena α) (i : Nat) (drained : Bool) : Keeps s id (s.cutOff i drained) :=
  .ite (orphanFront_keeps s i) (.pure (.refl s))

/-- Queueing a node if flow could run. -/
theorem rouse_keeps (s : Arena α) (i : Nat) (live : Bool) : Keeps s id (s.rouse i live) :=
  .ite (activate_keeps s i) (.pure (.refl s))

/-! ## Looking for a node and for a distance -/

/-- Taking a node off the queue. -/
theorem poll_keeps (s : Arena α) : Keeps s (Sum.elim id Prod.snd) s.poll := by
  unfold poll
  split
  · exact .pure (.refl s)
  · refine .after (.bind (flag_keeps _ _ false) fun t => .read fun node => .pure ?_)
      (.of_eq rfl rfl)
    show t.SameShape _
    split <;> exact .refl t

/-- Finding the node to be scanned. -/
theorem select_keeps (s : Arena α) (current : Option Nat) :
    Keeps s Prod.snd (s.select current) := by
  have hpoll (s : Arena α) : Keeps s Prod.snd (Loop.run poll s) := .loop poll_keeps s
  cases current with
  | none => exact hpoll s
  | some i =>
    exact (flag_keeps s i false).bind fun s => .read fun _ => .ite (.pure (.refl s)) (hpoll s)

/-- Counting a link. -/
theorem probe_keeps (s : Arena α) : ∀ p : Nat × Nat,
    Keeps s (Sum.elim (fun _ => s) Prod.snd) (s.probe p)
  | (i, count) => by
    refine .read fun node => .ite (.pure (.refl s)) ?_
    split
    · exact (mark_keeps s i 1).bind fun s => .pure (.refl s)
    · exact .read fun _ => .pure (.refl s)
    · exact .pure (.refl s)
    · exact .pure (.refl s)

/-- Noting a distance on the way up, and counting down. -/
theorem note_keeps : ∀ p : Arena α × Nat × Nat, Keeps p.1 (Sum.elim Prod.fst id) (note p)
  | (s, i, distance) => by
    refine .read fun node => .ite (.pure (.refl s)) ?_
    refine (mark_keeps s i distance).bind fun s => .read fun _ => .read fun node => ?_
    split
    · exact .read fun _ => .pure (.refl s)
    · exact .pure (.refl s)

/-- Looking for the distance of a node. -/
theorem trace_keeps (s : Arena α) (i : Nat) : Keeps s Prod.snd (s.trace i) :=
  (Keeps.loop s.probe_keeps (i, 0)).bind fun
    | (none, s) => .pure (.refl s)
    | (some distance, s) => (Keeps.loop note_keeps (s, i, distance)).bind fun s => .pure (.refl s)

section Searching

variable [Capacity α]

/-! ## Growing -/

/-- Making a node a root, or leaving it free. -/
theorem plant_keeps (s : Arena α) (i : Nat) : Keeps s id (s.plant i) :=
  (flag_keeps s i false).bind fun s => .read fun _ =>
    .ite ((attach_keeps s i _ _ 0 1).bind fun s => activate_keeps s i)
      (.ite ((attach_keeps s i _ _ 0 1).bind fun s => activate_keeps s i)
        (updateNode_keeps (fun _ => by rfl) s i))

/-- Making all nodes roots that have capacity left. -/
theorem plantAll_keeps (s : Arena α) : Keeps s id s.plantAll :=
  (Keeps.foldlM plant_keeps (List.range s.nodes.length) _).after (.of_eq rfl rfl)

/-- Scanning a node, by induction on the arcs that are still to be followed. -/
theorem scan_keeps (i : Nat) (side : Side) (stamp distance : Nat) (ks : List Nat) (s : Arena α) :
    Keeps s Prod.snd (scan i side stamp distance ks s) := by
  induction ks generalizing s with
  | nil => exact .pure (.refl s)
  | cons k ks ih =>
    refine .read fun a => .read fun sister => .read fun amount => .ite (ih s) ?_
    refine .read fun j => .read fun node => ?_
    split
    · exact (attach_keeps s j _ _ _ _).bind fun s => (activate_keeps s j).bind ih
    · exact .ite (ih s) (.pure (.refl s))

/-- Scanning a node from its first arc on. -/
theorem grow_keeps (s : Arena α) (i : Nat) : Keeps s Prod.snd (s.grow i) := by
  refine .read fun node => ?_
  split
  · exact .pure (.refl s)
  · exact scan_keeps i _ _ _ _ s

/-! ## Augmenting -/

/-- Moving an amount from an arc to its sister. -/
theorem push_keeps (s : Arena α) (a : Nat) (x : α) : Keeps s id (s.push a x) :=
  .read fun sister =>
    (updateArc_keeps (fun _ => by rfl) (fun _ => by rfl) s a).bind fun s =>
      updateArc_keeps (fun _ => by rfl) (fun _ => by rfl) s sister

/-- Drawing on a terminal. -/
theorem draw_keeps (s : Arena α) (side : Side) (i : Nat) (x : α) : Keeps s id (s.draw side i x) :=
  updateNode_keeps (fun _ => by rfl) s i

/-- Sending over a link, or from a terminal. -/
theorem pour_keeps (side : Side) (x : α) : ∀ p : Arena α × Nat,
    Keeps p.1 (Sum.elim Prod.fst id) (pour side x p)
  | (s, i) => by
    refine .read fun parent => ?_
    split
    · exact .read fun a => (push_keeps s a x).bind fun s => .read fun _ =>
        (cutOff_keeps s i _).bind fun s => .read fun _ => .pure (.refl s)
    · exact (draw_keeps s side i x).bind fun s => .read fun _ =>
        (cutOff_keeps s i _).bind fun s => .pure (.refl s)

/-- **Augmenting a path.** -/
theorem augment_keeps (s : Arena α) (bridge : Nat) : Keeps s id (s.augment bridge) :=
  .read fun _ => .read fun _ => .read fun _ => .read fun _ => .read fun _ =>
    (push_keeps s bridge _).bind fun s =>
      (Keeps.loop (pour_keeps .source _) (s, _)).bind fun s =>
        (Keeps.loop (pour_keeps .sink _) (s, _)).bind fun _ => .pure (.of_eq rfl rfl)

/-! ## Adopting -/

/-- Weighing a parent, with the walk up its chain. -/
theorem weigh_keeps (i : Nat) (tree : Option Side) :
    ∀ (p : Arena α × Option (Nat × Nat)) (k : Nat), Keeps p.1 Prod.fst (weigh i tree p k)
  | (s, best), k => by
    refine .read fun a => .read fun amount => .ite (.pure (.refl s)) ?_
    refine .read fun j => .read fun node => .ite (.pure (.refl s)) ?_
    exact (trace_keeps s j).bind fun
      | (none, s) => .pure (.refl s)
      | (some d, s) => .pure (.refl s)

/-- What releasing a node means for another. -/
theorem estrange_keeps (i : Nat) (tree : Option Side) (s : Arena α) (k : Nat) :
    Keeps s id (estrange i tree s k) := by
  refine .read fun a => .read fun j => .read fun node => .ite (.pure (.refl s)) ?_
  refine .read fun amount => (rouse_keeps s j _).bind fun s => .read fun node => ?_
  split
  · exact .read fun _ => .ite (orphanBack_keeps s j) (.pure (.refl s))
  · exact .pure (.refl s)

/-- Releasing an orphan. -/
theorem expel_keeps (s : Arena α) (i : Nat) (tree : Option Side) : Keeps s id (s.expel i tree) :=
  .read fun _ => (Keeps.foldlM (estrange_keeps i tree) _ s).bind fun s =>
    (updateNode_keeps (fun _ => by rfl) s i).bind fun _ => .pure (.of_eq rfl rfl)

/-- **Settling an orphan**, by a terminal, by a parent, or by releasing it. -/
theorem settle_keeps (s : Arena α) (i : Nat) : Keeps s id (s.settle i) := by
  refine .read fun node => .ite ?_ ?_
  · exact (attach_keeps s i _ _ _ _).bind fun _ => .pure (.of_eq rfl rfl)
  · exact (Keeps.foldlM (weigh_keeps i node.side) _ (s, none)).bind fun
      | (s, some (a, d)) => (attach_keeps s i _ _ _ _).bind fun _ => .pure (.of_eq rfl rfl)
      | (s, none) => expel_keeps s i _

/-- Taking an orphan off the line and settling it. -/
theorem round_keeps (s : Arena α) : Keeps s (Sum.elim id id) s.round := by
  unfold round
  split
  · exact .pure (.refl s)
  · refine .after (t := _) (.read fun node => .ite ?_ (.pure (.refl _))) (.of_eq rfl rfl)
    exact (settle_keeps _ _).bind fun s => .pure (.refl s)

/-! ## Searching -/

/-- **A turn keeps the shape.** -/
theorem turn_keeps : ∀ p : Arena α × Option Nat, Keeps p.1 (Sum.elim Prod.fst id) (turn p)
  | (s, current) => (select_keeps s current).bind fun
    | (none, s) => .pure (.refl s)
    | (some i, s) => (grow_keeps s i).bind fun
      | (none, _) => .pure (.of_eq rfl rfl)
      | (some bridge, _) => .after ((flag_keeps _ i true).bind fun s =>
          (augment_keeps s bridge).bind fun s =>
            (Keeps.loop round_keeps s).bind fun s => .pure (.refl s)) (.of_eq rfl rfl)

/-- **Solving keeps the shape**, whether it is refused or not. -/
theorem solve_keeps (s : Arena α) : Keeps s Prod.snd (s.perform solve) := by
  let started : Arena α := { s with events := [.started s.nodes.length s.arcs.length] }
  rw [perform_solve]
  refine .ite (.pure (.refl s)) (.after (t := started) ?_ (.of_eq rfl rfl))
  exact (plantAll_keeps started).bind fun s =>
    (Keeps.loop turn_keeps (s, none)).bind fun _ => .pure (.of_eq rfl rfl)

/-! ## Whatever is executed -/

/-- **A function of the search has been executed**, and has led from an arena to another one. -/
inductive Executes : Arena α → Arena α → Prop
  /-- Only waiting lines, counts, events or the time have changed. -/
  | tally {s t : Arena α} (hnodes : t.nodes = s.nodes) (harcs : t.arcs = s.arcs) : Executes s t
  | attach {s t : Arena α} {i tree parent stamp distance}
      (h : s.attach i tree parent stamp distance = some t) : Executes s t
  | mark {s t : Arena α} {i distance} (h : s.mark i distance = some t) : Executes s t
  | flag {s t : Arena α} {i active} (h : s.flag i active = some t) : Executes s t
  | activate {s t : Arena α} {i} (h : s.activate i = some t) : Executes s t
  | sever {s t : Arena α} {i} (h : s.sever i = some t) : Executes s t
  | orphanFront {s t : Arena α} {i} (h : s.orphanFront i = some t) : Executes s t
  | orphanBack {s t : Arena α} {i} (h : s.orphanBack i = some t) : Executes s t
  | plant {s t : Arena α} {i} (h : s.plant i = some t) : Executes s t
  | plantAll {s t : Arena α} (h : s.plantAll = some t) : Executes s t
  | poll {s t : Arena α} (h : s.poll = some (.inl t)) : Executes s t
  | polled {s t : Arena α} {found} (h : s.poll = some (.inr (found, t))) : Executes s t
  | select {s t : Arena α} {current found} (h : s.select current = some (found, t)) : Executes s t
  | scan {s t : Arena α} {i side stamp distance ks found}
      (h : scan i side stamp distance ks s = some (found, t)) : Executes s t
  | grow {s t : Arena α} {i found} (h : s.grow i = some (found, t)) : Executes s t
  | push {s t : Arena α} {a x} (h : s.push a x = some t) : Executes s t
  | draw {s t : Arena α} {side i x} (h : s.draw side i x = some t) : Executes s t
  | cutOff {s t : Arena α} {i drained} (h : s.cutOff i drained = some t) : Executes s t
  | pour {s t : Arena α} {side x i j} (h : pour side x (s, i) = some (.inl (t, j))) : Executes s t
  | poured {s t : Arena α} {side x i} (h : pour side x (s, i) = some (.inr t)) : Executes s t
  | augment {s t : Arena α} {bridge} (h : s.augment bridge = some t) : Executes s t
  | probed {s t : Arena α} {p found} (h : s.probe p = some (.inr (found, t))) : Executes s t
  | note {s t : Arena α} {p q} (h : note (s, p) = some (.inl (t, q))) : Executes s t
  | noted {s t : Arena α} {p} (h : note (s, p) = some (.inr t)) : Executes s t
  | trace {s t : Arena α} {i found} (h : s.trace i = some (found, t)) : Executes s t
  | weigh {s t : Arena α} {i tree k best best'}
      (h : weigh i tree (s, best) k = some (t, best')) : Executes s t
  | rouse {s t : Arena α} {i live} (h : s.rouse i live = some t) : Executes s t
  | estrange {s t : Arena α} {i tree k} (h : estrange i tree s k = some t) : Executes s t
  | expel {s t : Arena α} {i tree} (h : s.expel i tree = some t) : Executes s t
  | settle {s t : Arena α} {i} (h : s.settle i = some t) : Executes s t
  | round {s t : Arena α} (h : s.round = some (.inl t)) : Executes s t
  | turn {s t : Arena α} {current current'}
      (h : turn (s, current) = some (.inl (t, current'))) : Executes s t
  | turned {s t : Arena α} {current} (h : turn (s, current) = some (.inr t)) : Executes s t

/-- **Whatever the search executes**, the arena keeps its shape. -/
theorem Executes.sameShape (h : Executes s t) : s.SameShape t := by
  -- one case for each function, which has its lemma above
  cases h with
  | tally hnodes harcs => exact .of_eq hnodes harcs
  | attach h => exact attach_keeps s _ _ _ _ _ t h
  | mark h => exact mark_keeps s _ _ t h
  | flag h => exact flag_keeps s _ _ t h
  | activate h => exact activate_keeps s _ t h
  | sever h => exact sever_keeps s _ t h
  | orphanFront h => exact orphanFront_keeps s _ t h
  | orphanBack h => exact orphanBack_keeps s _ t h
  | plant h => exact plant_keeps s _ t h
  | plantAll h => exact plantAll_keeps s t h
  | poll h | polled h => exact poll_keeps s _ h
  | select h => exact select_keeps s _ _ h
  | scan h => exact scan_keeps _ _ _ _ _ s _ h
  | grow h => exact grow_keeps s _ _ h
  | push h => exact push_keeps s _ _ t h
  | draw h => exact draw_keeps s _ _ _ t h
  | cutOff h => exact cutOff_keeps s _ _ t h
  | pour h | poured h => exact pour_keeps _ _ (s, _) _ h
  | augment h => exact augment_keeps s _ t h
  | probed h => exact probe_keeps s _ _ h
  | note h | noted h => exact note_keeps (s, _) _ h
  | trace h => exact trace_keeps s _ _ h
  | weigh h => exact weigh_keeps _ _ (s, _) _ _ h
  | rouse h => exact rouse_keeps s _ _ t h
  | estrange h => exact estrange_keeps _ _ s _ t h
  | expel h => exact expel_keeps s _ _ t h
  | settle h => exact settle_keeps s _ t h
  | round h => exact round_keeps s _ h
  | turn h | turned h => exact turn_keeps (s, _) _ h

/-- However much of it is executed. -/
theorem sameShape_of_executes (h : Relation.ReflTransGen Executes s t) : s.SameShape t := by
  induction h with
  | refl => exact .refl s
  | tail _ h ih => exact ih.trans h.sameShape

end Searching

end Arena

end MinCut
