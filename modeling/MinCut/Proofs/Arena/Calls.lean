import MinCut.Proofs.Arena.Program

/-!
# Calls on plain records

A call checks what it is given, and then it writes. A graph that is a value of its own needs no
care about the order of the two, since a call that is refused gives no graph at all
(`Graph.call`). Over plain records it matters: whatever a call has written when it comes to a
check that fails stays written. An `Action` therefore gives the arena beside its result, *and
beside a fault as well*. The parts of a call are joined in the order in which they are carried
out, so that the total is written before the capacities it counts.

Nothing in an action takes a write back, and still no call leaves a trace where it is refused
(`Arena.answer_refused`). This holds of every arena, sensible or not, by the way in which the
parts of a call follow each other: up to the last check nothing is written (`ReadsOnly`), and
after the first write nothing is refused (`Unrefused`).

The calls are put together from parts, and so are the proofs. Whether a part reads only, or is never
refused, is told for each way of making a part from others (`ReadsOnly.bind`, `Unrefused.bind` and
so on), so that the proof for a part has the same shape as its definition. Two lemmas put checks
before writes: `ReadsOnly.bind_traceless` for what comes before the point of no return, and
`Traceless.bind` for what comes after.
-/

namespace MinCut

/-- Whether a call only asks. -/
def Call.asks {α : Type} : Call α → Bool
  | addNodes _ | addTerminal .. | addEdge _ | solve => false
  | flow | side _ | sides | sourceCut | stats | nodeCount | arcCount | snapshot => true

namespace Arena

variable {α β γ : Type}

/-- **A part of a call.** It gives a result or a fault, with the arena as it is by then, or it
panics. -/
abbrev Action (α β : Type) : Type := ExceptT (Fault α) (StateT (Arena α) Option) β

/-- Carries out a part of a call. -/
def perform (s : Arena α) (x : Action α β) : Option (Except (Fault α) β × Arena α) := x.run.run s

/-- Carries out a part of a call whose refusal is something to be told, like any other result. -/
def attempt (x : Action α β) : Action α (Except (Fault α) β) := ExceptT.lift x.run

/-! ## One part after another

What comes of two parts is told by what comes of the first. The lemmas rewrite what has been carried
out from left to right, so that no proof has to unfold how actions are joined. -/

section Performing

variable {s t u : Arena α} {x : Action α β} {next : β → Action α γ} {b : β} {fault : Fault α}

/-- A part that gives a result is followed by the next one, in the arena it has left. -/
theorem perform_bind_of_ok (h : s.perform x = some (.ok b, t)) :
    s.perform (x >>= next) = t.perform (next b) := by
  show (x.run.run s >>= fun (r, t) => (ExceptT.bindCont next r).run t) = _
  rw [show x.run.run s = some (.ok b, t) from h]
  rfl

/-- A part that is refused is the last one. The arena is the one it has left. -/
theorem perform_bind_of_error (h : s.perform x = some (.error fault, t)) :
    s.perform (x >>= next) = some (.error fault, t) := by
  show (x.run.run s >>= fun (r, t) => (ExceptT.bindCont next r).run t) = _
  rw [show x.run.run s = some (.error fault, t) from h]
  rfl

/-- What has been carried out of two parts. -/
theorem perform_bind_cases {r : Except (Fault α) γ} (h : s.perform (x >>= next) = some (r, u)) :
    (∃ b t, s.perform x = some (.ok b, t) ∧ t.perform (next b) = some (r, u))
      ∨ ∃ fault, s.perform x = some (.error fault, u) ∧ r = .error fault := by
  cases hx : s.perform x with
  | none =>
    have : s.perform (x >>= next) = none := by
      show (x.run.run s >>= fun (r, t) => (ExceptT.bindCont next r).run t) = _
      rw [show x.run.run s = none from hx]
      rfl
    rw [this] at h
    cases h
  | some first =>
    obtain ⟨b | b, t⟩ := first
    · rw [perform_bind_of_error hx] at h
      cases h
      exact .inr ⟨_, rfl, rfl⟩
    · rw [perform_bind_of_ok hx] at h
      exact .inl ⟨b, t, rfl, h⟩

/-- Two parts that have both been carried out. -/
theorem perform_bind_eq_ok {c : γ} (h : s.perform (x >>= next) = some (.ok c, u)) :
    ∃ b t, s.perform x = some (.ok b, t) ∧ t.perform (next b) = some (.ok c, u) := by
  obtain h | ⟨fault, _, hr⟩ := perform_bind_cases h
  · exact h
  · cases hr

/-- A part that only gives a result. -/
theorem perform_pure (s : Arena α) (b : β) : s.perform (pure b) = some (.ok b, s) := rfl

/-- A part that is refused at once. The arena is left as it is. -/
theorem perform_throw (s : Arena α) (fault : Fault α) :
    s.perform (throw fault : Action α β) = some (.error fault, s) := rfl

/-- What follows is told the arena. -/
theorem perform_get_bind (s : Arena α) (next : Arena α → Action α γ) :
    s.perform (get >>= next) = s.perform (next s) := rfl

/-- The arena is replaced. -/
theorem perform_set (s t : Arena α) : s.perform (set t) = some (.ok (), t) := rfl

/-- The arena is changed. -/
theorem perform_modify (s : Arena α) (change : Arena α → Arena α) :
    s.perform (modify change) = some (.ok (), change s) := rfl

/-- What follows starts from the arena that has been put in place. -/
theorem perform_set_bind (s t : Arena α) (next : PUnit → Action α γ) :
    s.perform (set t >>= next) = t.perform (next ⟨⟩) := rfl

/-- What follows starts from the changed arena. -/
theorem perform_modify_bind (s : Arena α) (change : Arena α → Arena α)
    (next : PUnit → Action α γ) :
    s.perform (modify change >>= next) = (change s).perform (next ⟨⟩) := rfl

/-- One of two parts is carried out. -/
theorem perform_ite {c : Prop} [Decidable c] (s : Arena α) (x y : Action α β) :
    s.perform (if c then x else y) = if c then s.perform x else s.perform y := by
  split <;> rfl

/-- What is looked up before a part of a call. -/
theorem perform_lift_bind (s : Arena α) (read : Option β) (next : β → Action α γ) :
    s.perform (liftM read >>= next) = read >>= fun b => s.perform (next b) := by
  cases read <;> rfl

/-- A part that is attempted is never refused, and leaves the arena it has left. -/
theorem perform_attempt (s : Arena α) (x : Action α β) :
    s.perform (attempt x) = (s.perform x).map fun (r, t) => (.ok r, t) := by
  show (x.run.run s >>= fun (r, t) => some (Except.ok r, t)) = (x.run.run s).map _
  cases x.run.run s <;> rfl

/-! ## Refusals

Three properties of the parts of a call. Each says something of all arenas, whatever they hold. -/

/-- A part that writes nothing. -/
def ReadsOnly (x : Action α β) : Prop :=
  ∀ ⦃s t : Arena α⦄ ⦃r⦄, s.perform x = some (r, t) → t = s

/-- A part that is never refused. -/
def Unrefused (x : Action α β) : Prop :=
  ∀ ⦃s t : Arena α⦄ ⦃fault⦄, s.perform x ≠ some (.error fault, t)

/-- **A part that leaves no trace** where it is refused. -/
def Traceless (x : Action α β) : Prop :=
  ∀ ⦃s t : Arena α⦄ ⦃fault⦄, s.perform x = some (.error fault, t) → t = s

namespace ReadsOnly

/-- Giving a result writes nothing. -/
theorem pure (b : β) : ReadsOnly (pure b : Action α β) := by
  intro s t r h
  cases h
  rfl

/-- Being refused writes nothing. -/
theorem throw (fault : Fault α) : ReadsOnly (throw fault : Action α β) := by
  intro s t r h
  cases h
  rfl

/-- Looking at the arena writes nothing. -/
theorem get : ReadsOnly (get : Action α (Arena α)) := by
  intro s t r h
  cases h
  rfl

/-- Looking something up writes nothing. -/
theorem lift (read : Option β) : ReadsOnly (liftM read : Action α β) := by
  intro s t r h
  cases read with
  | none => cases h
  | some b =>
    cases h
    rfl

/-- One of two parts writes nothing if neither of them does. -/
theorem ite {c : Prop} [Decidable c] {x y : Action α β} (hx : ReadsOnly x) (hy : ReadsOnly y) :
    ReadsOnly (if c then x else y) := by
  split
  · exact hx
  · exact hy

/-- Two parts write nothing if neither of them does. -/
theorem bind (hx : ReadsOnly x) (hnext : ∀ b, ReadsOnly (next b)) : ReadsOnly (x >>= next) := by
  intro s u r h
  obtain ⟨b, t, hx', h⟩ | ⟨fault, hx', _⟩ := perform_bind_cases h
  · exact (hnext b h).trans (hx hx')
  · exact hx hx'

/-- Attempting a part writes nothing if the part does not. -/
theorem attempt (hx : ReadsOnly x) : ReadsOnly (attempt x) := by
  intro s t r h
  rw [perform_attempt] at h
  obtain ⟨⟨r', t'⟩, hx', h⟩ := Option.map_eq_some_iff.1 h
  cases h
  exact hx hx'

/-- Nor does a part that is carried out for each entry of a list. -/
theorem mapM {f : γ → Action α β} (hf : ∀ c, ReadsOnly (f c)) (cs : List γ) :
    ReadsOnly (cs.mapM f) := by
  induction cs with
  | nil => exact .pure _
  | cons c cs ih =>
    rw [List.mapM_cons]
    exact (hf c).bind fun _ => ih.bind fun _ => .pure _

/-- What writes nothing leaves no trace. -/
theorem traceless (hx : ReadsOnly x) : Traceless x := fun _ _ _ h => hx h

/-- **Checks come first**: what follows a part that writes nothing starts from the same arena. -/
theorem bind_traceless (hx : ReadsOnly x) (hnext : ∀ b, Traceless (next b)) :
    Traceless (x >>= next) := by
  intro s u fault h
  obtain ⟨b, t, hx', h⟩ | ⟨fault, hx', _⟩ := perform_bind_cases h
  · exact (hnext b h).trans (hx hx')
  · exact hx hx'

/-- A part that is carried out after one that writes nothing. -/
theorem bind_eq_ok {c : γ} (hx : ReadsOnly x) (h : s.perform (x >>= next) = some (.ok c, u)) :
    ∃ b, s.perform x = some (.ok b, s) ∧ s.perform (next b) = some (.ok c, u) := by
  obtain ⟨b, t, hx', h⟩ := perform_bind_eq_ok h
  cases hx hx'
  exact ⟨b, hx', h⟩

end ReadsOnly

namespace Unrefused

/-- Giving a result is not refused. -/
theorem pure (b : β) : Unrefused (pure b : Action α β) := by
  intro s t fault h
  cases h

/-- Looking at the arena is not. -/
theorem get : Unrefused (get : Action α (Arena α)) := by
  intro s t fault h
  cases h

/-- Nor is putting an arena in its place. -/
theorem set (t : Arena α) : Unrefused (set t : Action α PUnit) := by
  intro s u fault h
  cases h

/-- Nor is changing it. -/
theorem modify (change : Arena α → Arena α) : Unrefused (modify change : Action α PUnit) := by
  intro s u fault h
  cases h

/-- A lookup can fail, but then there is a panic and no refusal. -/
theorem lift (read : Option β) : Unrefused (liftM read : Action α β) := by
  intro s t fault h
  cases read <;> cases h

/-- Two parts are not refused if neither of them is. -/
theorem bind (hx : Unrefused x) (hnext : ∀ b, Unrefused (next b)) : Unrefused (x >>= next) := by
  intro s u fault h
  obtain ⟨b, t, _, h⟩ | ⟨fault, hx', _⟩ := perform_bind_cases h
  · exact hnext b h
  · exact hx hx'

/-- What is never refused leaves no trace where it is refused. -/
theorem traceless (hx : Unrefused x) : Traceless x := fun _ _ _ h => (hx h).elim

end Unrefused

/-- **Writes come last**: nothing is refused after a part that could have been. -/
theorem Traceless.bind (hx : Traceless x) (hnext : ∀ b, Unrefused (next b)) :
    Traceless (x >>= next) := by
  intro s u fault h
  obtain ⟨b, t, _, h⟩ | ⟨fault, hx', _⟩ := perform_bind_cases h
  · exact (hnext b h).elim
  · exact hx hx'

end Performing

/-! ## Checks

Each check is a part of its own. It reads the arena and either gives nothing of interest or refuses.
-/

/-- Refuses what fits only a graph under construction. -/
def ensureBuilding : Action α Unit := do
  if (← get).isSolved then throw .frozen else return ()

/-- This check only reads. -/
theorem ensureBuilding_readsOnly : ReadsOnly (ensureBuilding (α := α)) :=
  ReadsOnly.get.bind fun _ => .ite (.throw _) (.pure _)

/-- Refuses what fits only a solved graph. -/
def ensureSolved : Action α Unit := do
  if (← get).isSolved then return () else throw .notSolved

/-- This one only reads, too. -/
theorem ensureSolved_readsOnly : ReadsOnly (ensureSolved (α := α)) :=
  ReadsOnly.get.bind fun _ => .ite (.pure _) (.throw _)

/-- Refuses a node that does not exist. -/
def ensureNode (i : Nat) : Action α Unit := do
  let s ← get
  if i < s.nodes.length then return () else throw (.nodeOutOfRange i s.nodes.length)

/-- Whether a node exists is read from the number of nodes. -/
theorem ensureNode_readsOnly (i : Nat) : ReadsOnly (ensureNode (α := α) i) :=
  ReadsOnly.get.bind fun _ => .ite (.pure _) (.throw _)

/-- How the check of a node ends. -/
theorem perform_ensureNode (s : Arena α) (i : Nat) : s.perform (ensureNode i)
    = some (if i < s.nodes.length then .ok ()
        else .error (.nodeOutOfRange i s.nodes.length), s) := by
  show s.perform (if _ then _ else _) = _
  split <;> rfl

section Calling

variable [Capacity α]

/-- The arena without nodes. -/
def empty : Arena α where
  nodes := []
  arcs := []
  flow := 0
  total := 0
  isSolved := false
  active := []
  orphans := []
  time := 0
  stats := .zero
  events := []

/-- Refuses a capacity that is negative or no number. -/
def ensureCapacity (capacity : α) : Action α Unit :=
  if 0 ≤ capacity then return () else throw (.negative capacity)

/-- Whether a capacity is accepted does not depend on the arena at all. -/
theorem ensureCapacity_readsOnly (capacity : α) : ReadsOnly (ensureCapacity capacity) :=
  .ite (.pure _) (.throw _)

/-- How the check of a capacity ends. -/
theorem perform_ensureCapacity (s : Arena α) (capacity : α) : s.perform (ensureCapacity capacity)
    = some (if 0 ≤ capacity then .ok () else .error (.negative capacity), s) := by
  unfold ensureCapacity
  split <;> rfl

/-! ## Building

The calls that build have their checks first, then the total, and last the records. The total is
written together with the last check, in one part: the sums are computed, and only if both are
finite is the total replaced. -/

/-- Adds two capacities to the total. It is left alone where one of the two sums is not finite,
and this is the last time that a call which adds capacity can be refused. -/
def reserve (first second : α) : Action α Unit := do
  let s ← get
  match (Capacity.checkedAdd s.total first).bind (Capacity.checkedAdd · second) with
  | some total => set { s with total }
  | none => throw (.totalOverflow first second s.total)

/-- Room is found for two capacities before the total is written. -/
theorem reserve_traceless (first second : α) : Traceless (reserve first second) := by
  refine ReadsOnly.get.bind_traceless fun s => ?_
  split
  · exact (Unrefused.set _).traceless
  · exact (ReadsOnly.throw _).traceless

/-- Two capacities that fit are in the total from then on. -/
theorem perform_reserve_of_some {s : Arena α} {first second total : α}
    (h : (Capacity.checkedAdd s.total first).bind (Capacity.checkedAdd · second) = some total) :
    s.perform (reserve first second) = some (.ok (), { s with total }) := by
  rw [reserve, perform_get_bind, h]
  rfl

/-- Two capacities that do not fit are told with the total as it was. -/
theorem perform_reserve_of_none {s : Arena α} {first second : α}
    (h : (Capacity.checkedAdd s.total first).bind (Capacity.checkedAdd · second) = none) :
    s.perform (reserve first second) = some (.error (.totalOverflow first second s.total), s) := by
  rw [reserve, perform_get_bind, h]
  rfl

/-- Nothing but the total is written. -/
theorem perform_reserve_eq_ok {s t : Arena α} {first second : α}
    (h : s.perform (reserve first second) = some (.ok (), t)) : ∃ total, t = { s with total } := by
  cases hsum : (Capacity.checkedAdd s.total first).bind (Capacity.checkedAdd · second) with
  | some total =>
    rw [perform_reserve_of_some hsum] at h
    cases h
    exact ⟨total, rfl⟩
  | none =>
    rw [perform_reserve_of_none hsum] at h
    cases h

/-- A node without arcs, outside both trees. -/
def newNode : NodeState α := ⟨[], none, none, 0, 0, 0, false⟩

/-- Adds nodes, and gives the number of the first. -/
def addNodes (count : Nat) : Action α Nat := do
  ensureBuilding
  let s ← get
  set { s with nodes := s.nodes ++ List.replicate count newNode }
  return s.nodes.length

/-- Nodes are added after the only check. -/
theorem addNodes_traceless (count : Nat) : Traceless (addNodes (α := α) count) :=
  ensureBuilding_readsOnly.bind_traceless fun _ => ReadsOnly.get.bind_traceless fun _ =>
    ((Unrefused.set _).bind fun _ => .pure _).traceless

/-- Gives a node capacity at both terminals. What they share runs through the node at once. -/
def credit (i : Nat) (sink source : α) : Action α Unit := do
  let node ← (← get).node i
  let (excess, shared) := absorb node.excess sink source
  set (← (← get).updateNode i fun node => { node with excess })
  modify fun s => { s with flow := s.flow + shared }

/-- There is nothing to refuse in crediting a node. -/
theorem credit_unrefused (i : Nat) (sink source : α) : Unrefused (credit i sink source) :=
  Unrefused.get.bind fun _ => (Unrefused.lift _).bind fun _ => Unrefused.get.bind fun _ =>
    (Unrefused.lift _).bind fun _ => (Unrefused.set _).bind fun _ => .modify _

/-- What crediting a node writes. -/
theorem perform_credit (s : Arena α) (i : Nat) (sink source : α) :
    s.perform (credit i sink source) = (do
      let node ← s.node i
      let t ← s.updateNode i fun node' =>
        { node' with excess := (absorb node.excess sink source).1 }
      some (.ok (), { t with flow := t.flow + (absorb node.excess sink source).2 })) := by
  simp only [credit, perform_get_bind, perform_lift_bind, perform_set_bind, perform_modify]

/-- Adds capacity toward the terminals at a node. -/
def addTerminal (i : Nat) (sink source : α) : Action α Unit := do
  ensureBuilding
  ensureNode i
  ensureCapacity sink
  ensureCapacity source
  reserve sink source
  credit i sink source

/-- **The checks of a terminal come before its writes.** -/
theorem addTerminal_traceless (i : Nat) (sink source : α) :
    Traceless (addTerminal i sink source) :=
  ensureBuilding_readsOnly.bind_traceless fun _ =>
    (ensureNode_readsOnly i).bind_traceless fun _ =>
      (ensureCapacity_readsOnly sink).bind_traceless fun _ =>
        (ensureCapacity_readsOnly source).bind_traceless fun _ =>
          (reserve_traceless sink source).bind fun _ => credit_unrefused i sink source

/-- Capacity that is accepted passes all checks, is in the total, and goes to its node. -/
theorem perform_addTerminal_eq_ok {s t : Arena α} {i : Nat} {sink source : α}
    (h : s.perform (addTerminal i sink source) = some (.ok (), t)) :
    ∃ total, perform { s with total } (credit i sink source) = some (.ok (), t) := by
  obtain ⟨_, _, h⟩ := ensureBuilding_readsOnly.bind_eq_ok h
  obtain ⟨_, _, h⟩ := (ensureNode_readsOnly i).bind_eq_ok h
  obtain ⟨_, _, h⟩ := (ensureCapacity_readsOnly sink).bind_eq_ok h
  obtain ⟨_, _, h⟩ := (ensureCapacity_readsOnly source).bind_eq_ok h
  obtain ⟨_, _, hreserve, h⟩ := perform_bind_eq_ok h
  obtain ⟨total, rfl⟩ := perform_reserve_eq_ok hreserve
  exact ⟨total, h⟩

/-- Adds an arc that leaves a node. -/
def addLeaving (s : Arena α) (i a : Nat) : Option (Arena α) :=
  s.updateNode i fun node => { node with arcs := node.arcs ++ [a] }

/-- Makes the two arcs of an edge, which are each other's sisters. -/
def addArcs (s : Arena α) (edge : Edge α) : Arena α := { s with
  arcs := s.arcs ++ [⟨edge.head, s.arcs.length + 1, edge.capacity⟩,
    ⟨edge.tail, s.arcs.length, edge.reverse⟩] }

/-- Makes the two arcs of an edge, and lists each at the node where it starts. -/
def join (edge : Edge α) : Action α Unit := do
  let forward := (← get).arcs.length
  modify (·.addArcs edge)
  set (← (← get).addLeaving edge.tail forward)
  set (← (← get).addLeaving edge.head (forward + 1))

omit [Capacity α] in
/-- What joining two nodes writes. -/
theorem perform_join (s : Arena α) (edge : Edge α) : s.perform (join edge) = (do
    let t ← (s.addArcs edge).addLeaving edge.tail s.arcs.length
    let t ← t.addLeaving edge.head (s.arcs.length + 1)
    some (.ok (), t)) := by
  rw [join, perform_get_bind, perform_modify_bind, perform_get_bind, perform_lift_bind]
  refine bind_congr fun t => ?_
  rw [perform_set_bind, perform_get_bind, perform_lift_bind]
  exact bind_congr fun u => perform_set t u

omit [Capacity α] in
/-- There is nothing to refuse in joining two nodes. -/
theorem join_unrefused (edge : Edge α) : Unrefused (join edge) :=
  Unrefused.get.bind fun _ => (Unrefused.modify _).bind fun _ =>
    Unrefused.get.bind fun _ => (Unrefused.lift _).bind fun _ => (Unrefused.set _).bind fun _ =>
      Unrefused.get.bind fun _ => (Unrefused.lift _).bind fun _ => .set _

/-- Joins two nodes by an edge, with an arc for each way. -/
def addEdge (edge : Edge α) : Action α Unit := do
  ensureBuilding
  ensureNode edge.tail
  ensureNode edge.head
  ensureCapacity edge.capacity
  ensureCapacity edge.reverse
  reserve edge.capacity edge.reverse
  join edge

/-- **The checks of an edge come before its writes.** -/
theorem addEdge_traceless (edge : Edge α) : Traceless (addEdge edge) :=
  ensureBuilding_readsOnly.bind_traceless fun _ =>
    (ensureNode_readsOnly edge.tail).bind_traceless fun _ =>
      (ensureNode_readsOnly edge.head).bind_traceless fun _ =>
        (ensureCapacity_readsOnly edge.capacity).bind_traceless fun _ =>
          (ensureCapacity_readsOnly edge.reverse).bind_traceless fun _ =>
            (reserve_traceless edge.capacity edge.reverse).bind fun _ => join_unrefused edge

/-- An edge that is accepted passes all checks, is in the total, and joins its ends. -/
theorem perform_addEdge_eq_ok {s t : Arena α} {edge : Edge α}
    (h : s.perform (addEdge edge) = some (.ok (), t)) :
    ∃ total, perform { s with total } (join edge) = some (.ok (), t) := by
  obtain ⟨_, _, h⟩ := ensureBuilding_readsOnly.bind_eq_ok h
  obtain ⟨_, _, h⟩ := (ensureNode_readsOnly edge.tail).bind_eq_ok h
  obtain ⟨_, _, h⟩ := (ensureNode_readsOnly edge.head).bind_eq_ok h
  obtain ⟨_, _, h⟩ := (ensureCapacity_readsOnly edge.capacity).bind_eq_ok h
  obtain ⟨_, _, h⟩ := (ensureCapacity_readsOnly edge.reverse).bind_eq_ok h
  obtain ⟨_, _, hreserve, h⟩ := perform_bind_eq_ok h
  obtain ⟨total, rfl⟩ := perform_reserve_eq_ok hreserve
  exact ⟨total, h⟩

/-! ## Solving and asking

Solving refuses a graph that has been solved and is not refused later. All other calls only read. So
each call leaves no trace where it is refused, and the theorem about histories follows. -/

/-- Computes the maximum flow. -/
def solve : Action α α := do
  let s ← get
  if s.isSolved then throw .alreadySolved
  else
    let s ← plantAll { s with events := [.started s.nodes.length s.arcs.length] }
    let s ← Loop.run turn (s, none)
    set { s with isSolved := true, events := .finished s.flow s.stats :: s.events }
    return s.flow

/-- What solving writes. -/
theorem perform_solve (s : Arena α) : s.perform solve =
    if s.isSolved then some (.error .alreadySolved, s)
    else (do
      let t ← plantAll { s with events := [.started s.nodes.length s.arcs.length] }
      let t ← Loop.run turn (t, none)
      some (.ok t.flow, { t with
        isSolved := true
        events := .finished t.flow t.stats :: t.events })) := by
  rw [solve, perform_get_bind, perform_ite, perform_throw]
  simp only [perform_lift_bind, perform_set_bind, perform_pure]

/-- A search that has begun is not refused. -/
theorem solve_traceless : Traceless (solve (α := α)) := by
  refine ReadsOnly.get.bind_traceless fun s => ?_
  -- either the graph is solved and refuses before anything is written, or nothing can be refused
  split
  · exact (ReadsOnly.throw _).traceless
  · exact ((Unrefused.lift _).bind fun _ => (Unrefused.lift _).bind fun _ =>
      (Unrefused.set _).bind fun _ => .pure _).traceless

/-- The side of a node. -/
def side (i : Nat) : Action α Side := do
  ensureNode i
  ensureSolved
  return match (← (← get).node i).side with
    | some .source => .source
    | some .sink | none => .sink

omit [Capacity α] in
/-- Asking for the side of a node writes nothing. -/
theorem side_readsOnly (i : Nat) : ReadsOnly (side (α := α) i) :=
  (ensureNode_readsOnly i).bind fun _ => ensureSolved_readsOnly.bind fun _ =>
    ReadsOnly.get.bind fun _ => (ReadsOnly.lift _).bind fun _ => .pure _

/-- The nodes on the source's side. -/
def sourceCut : Action α (List Nat) := do
  ensureSolved
  return ((← get).nodes.zipIdx.filter fun (node, _) => node.side = some .source).map Prod.snd

omit [Capacity α] in
/-- Nor does asking for the nodes on the source's side. -/
theorem sourceCut_readsOnly : ReadsOnly (sourceCut (α := α)) :=
  ensureSolved_readsOnly.bind fun _ => ReadsOnly.get.bind fun _ => .pure _

/-- What a call does. -/
def call : Call α → Action α (Answer α)
  | .addNodes count => return .number (← addNodes count)
  | .addTerminal node sink source => do
    addTerminal node sink source
    return .done
  | .addEdge edge => do
    addEdge edge
    return .done
  | .solve => do
    let flow ← solve
    return .solution flow (← get).events.reverse
  | .flow => do
    ensureSolved
    return .amount (← get).flow
  | .side node => return .side (← side node)
  | .sides => do
    let count := (← get).nodes.length
    return .sides (← (List.range count).mapM fun i => attempt (side i))
  | .sourceCut => return .nodes (← sourceCut)
  | .stats => do
    ensureSolved
    return .stats (← get).stats
  | .nodeCount => return .number (← get).nodes.length
  | .arcCount => return .number (← get).arcs.length
  | .snapshot => return .snapshot (← get).toSnapshot

/-- **A call that only asks writes nothing**, whether it is refused or not. -/
theorem call_readsOnly {c : Call α} (hc : c.asks) : ReadsOnly (call c) := by
  cases c with
  | addNodes | addTerminal | addEdge | solve => cases hc
  | flow | stats => exact ensureSolved_readsOnly.bind fun _ => ReadsOnly.get.bind fun _ => .pure _
  | side node => exact (side_readsOnly node).bind fun _ => .pure _
  -- each node is attempted, so that a refusal is part of the answer
  | sides =>
    exact ReadsOnly.get.bind fun s =>
      (ReadsOnly.mapM (fun i => (side_readsOnly i).attempt) _).bind fun _ => .pure _
  | sourceCut => exact sourceCut_readsOnly.bind fun _ => .pure _
  | nodeCount | arcCount | snapshot => exact ReadsOnly.get.bind fun _ => .pure _

/-- **No call leaves a trace where it is refused.** -/
theorem call_traceless (c : Call α) : Traceless (call c) := by
  cases c with
  | addNodes count => exact (addNodes_traceless count).bind fun _ => .pure _
  | addTerminal node sink source =>
    exact (addTerminal_traceless node sink source).bind fun _ => .pure _
  | addEdge edge => exact (addEdge_traceless edge).bind fun _ => .pure _
  | solve => exact solve_traceless.bind fun _ => Unrefused.get.bind fun _ => .pure _
  | _ => exact (call_readsOnly rfl).traceless

/-- Answers a call. -/
def answer (s : Arena α) (c : Call α) : Option (Except (Fault α) (Answer α) × Arena α) :=
  s.perform (call c)

/-- **A call that is refused leaves every arena as it was.** -/
theorem answer_refused {s t : Arena α} {c : Call α} {fault : Fault α}
    (h : s.answer c = some (.error fault, t)) : t = s := call_traceless c h

/-- Answers calls one after the other. -/
def answers (s : Arena α) :
    List (Call α) → Option (List (Except (Fault α) (Answer α)) × Arena α)
  | [] => some ([], s)
  | c :: calls => do
    let (a, s) ← s.answer c
    let (as, s) ← s.answers calls
    return (a :: as, s)

end Calling

end Arena

end MinCut
