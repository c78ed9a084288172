import MinCut.Turn
import Mathlib.Data.Sum.Basic

/-!
# Loops that end

The functions of the search follow the structure of their data: they recurse on a
list, on a waiting line that gets shorter, or on a bound that is known to be large
enough. A loop has no such structure. It executes its body over and over, and nothing
but the body says when to stop.

`Loop.Ends` says of a loop that it does stop, and with what result. It is a statement
about the body alone, so that a function is seen to do the work of a loop when the
loop ends with the value of the function.

`Loop.InStep` says of two loops that they go on together: what holds between them before
one execution of their bodies holds before the next one, and they stop after equally many.
Again it is enough to look at the bodies (`Loop.Ends.inStep`).

`Loop.run` executes a loop whose body can also fail. That it has a result means that it
stops and that its body has not failed on the way.
-/

namespace MinCut

/-- **A loop ends with a result**: its body, executed over and over from a state on,
leads to a next state each time and to the result at last. -/
inductive Loop.Ends {σ ρ : Type} (body : σ → σ ⊕ ρ) : σ → ρ → Prop
  /-- The body says that the loop is over. -/
  | last {s : σ} {r : ρ} (h : body s = .inr r) : Ends body s r
  /-- The loop goes on with the next state. -/
  | next {s s' : σ} {r : ρ} (h : body s = .inl s') (rest : Ends body s' r) : Ends body s r

/-- A round as the body of a loop. -/
def Turn.toSum {σ : Type} : Turn σ → σ ⊕ σ
  | done s => .inr s
  | more s => .inl s

/-- The loop goes on exactly if there may be more to do. -/
theorem Turn.toSum_eq_inl_iff {σ : Type} {t : Turn σ} {s : σ} : t.toSum = .inl s ↔ t = .more s := by
  cases t <;> simp [toSum]

/-- A loop has one result only. -/
theorem Loop.Ends.unique {σ ρ : Type} {body : σ → σ ⊕ ρ} {s : σ} {r r' : ρ}
    (h : Ends body s r) (h' : Ends body s r') : r = r' := by
  induction h with
  | last h =>
    cases h' with
    | last h' => exact Sum.inr.inj (h.symm.trans h')
    | next h' _ => exact absurd (h.symm.trans h') (by simp)
  | next h _ ih =>
    cases h' with
    | last h' => exact absurd (h.symm.trans h') (by simp)
    | next h' rest => exact ih (Sum.inl.inj (h.symm.trans h') ▸ rest)

/-- **Two loops go on in step**: they are in related states whenever their bodies are executed,
they stop together, and their results are related. -/
inductive Loop.InStep {σ ρ σ' ρ' : Type} (body : σ → σ ⊕ ρ) (body' : σ' → σ' ⊕ ρ')
    (R : σ → σ' → Prop) (Q : ρ → ρ' → Prop) : σ → σ' → ρ → ρ' → Prop
  /-- Both bodies say that the loop is over. -/
  | last {s : σ} {s' : σ'} {r : ρ} {r' : ρ'} (states : R s s') (h : body s = .inr r)
      (h' : body' s' = .inr r') (results : Q r r') : InStep body body' R Q s s' r r'
  /-- Both loops go on. -/
  | next {s t : σ} {s' t' : σ'} {r : ρ} {r' : ρ'} (states : R s s') (h : body s = .inl t)
      (h' : body' s' = .inl t') (rest : InStep body body' R Q t t' r r') :
      InStep body body' R Q s s' r r'

namespace Loop

variable {σ ρ σ' ρ' : Type} {body : σ → σ ⊕ ρ} {body' : σ' → σ' ⊕ ρ'}
variable {R R₁ : σ → σ' → Prop} {Q Q₁ : ρ → ρ' → Prop} {s : σ} {s' : σ'} {r : ρ} {r' : ρ'}

/-- The second of two loops in step ends as the first one does. -/
theorem InStep.ends (h : InStep body body' R Q s s' r r') : Ends body' s' r' := by
  induction h with
  | last _ _ h' _ => exact .last h'
  | next _ _ h' _ ih => exact .next h' ih

/-- The results of loops in step are related. -/
theorem InStep.results (h : InStep body body' R Q s s' r r') : Q r r' := by
  induction h with
  | last _ _ _ results => exact results
  | next _ _ _ _ ih => exact ih

/-- Loops are in step for whatever follows from the relation that they keep. -/
theorem InStep.imp (h : InStep body body' R Q s s' r r') (hR : ∀ {s s'}, R s s' → R₁ s s')
    (hQ : ∀ {r r'}, Q r r' → Q₁ r r') : InStep body body' R₁ Q₁ s s' r r' := by
  induction h with
  | last states h h' results => exact .last (hR states) h h' (hQ results)
  | next states h h' _ ih => exact .next (hR states) h h' ih

/-- **A loop that ends takes another one with it** if their bodies lead from related states
to related ones. -/
theorem Ends.inStep (h : Ends body s r) (hs : R s s')
    (step : ∀ {s s'}, R s s' → Sum.LiftRel R Q (body s) (body' s')) :
    ∃ r', InStep body body' R Q s s' r r' := by
  induction h generalizing s' with
  | last h =>
    have hbody := step hs
    rw [h] at hbody
    obtain ⟨r', h', hr⟩ : ∃ r', body' s' = .inr r' ∧ Q _ r' := by
      cases hbody' : body' s' with
      | inl t' => rw [hbody'] at hbody; cases hbody
      | inr r' => rw [hbody'] at hbody; exact ⟨r', rfl, Sum.liftRel_inr_inr.1 hbody⟩
    exact ⟨r', .last hs h h' hr⟩
  | next h _ ih =>
    have hbody := step hs
    rw [h] at hbody
    obtain ⟨t', h', ht⟩ : ∃ t', body' s' = .inl t' ∧ R _ t' := by
      cases hbody' : body' s' with
      | inl t' => rw [hbody'] at hbody; exact ⟨t', rfl, Sum.liftRel_inl_inl.1 hbody⟩
      | inr r' => rw [hbody'] at hbody; cases hbody
    obtain ⟨r', rest⟩ := ih ht
    exact ⟨r', .next hs h h' rest⟩

end Loop

/-- A loop whose body can fail, given by this body. -/
abbrev Loop (σ ρ : Type) : Type := σ → Option (σ ⊕ ρ)

/-- **Executes a body over and over** until it says that the loop is over. A body can fail,
and then so does the loop. -/
def Loop.run {σ ρ : Type} (body : Loop σ ρ) (s : σ) : Option ρ := do
  match ← body s with
  | .inl s => body |>.run s
  | .inr r => return r
partial_fixpoint

namespace Loop

variable {σ ρ τ π : Type} {checked : τ → Option (τ ⊕ π)}

/-- A loop whose body says that it is over has its result. -/
theorem run_of_last {t : τ} {p : π} (h : checked t = some (.inr p)) : run checked t = some p := by
  rw [run, h]
  rfl

/-- A loop whose body leads to another state goes on from there. -/
theorem run_of_next {t t' : τ} (h : checked t = some (.inl t')) :
    run checked t = run checked t' := by
  rw [run, h]
  rfl

/-- **A body that does not fail where another one goes** ends with the same result, in its
own terms. What it needs at a state is an invariant of the other one. -/
theorem Ends.run_eq {body : σ → σ ⊕ ρ} {s : σ} {r : ρ} (h : Ends body s r) (embed : σ → τ)
    (result : ρ → π) (Inv : σ → Prop) (hs : Inv s)
    (next : ∀ {s s'}, Inv s → body s = .inl s' →
      checked (embed s) = some (.inl (embed s')) ∧ Inv s')
    (last : ∀ {s r}, Inv s → body s = .inr r → checked (embed s) = some (.inr (result r))) :
    run checked (embed s) = some (result r) := by
  induction h with
  | last h => exact run_of_last (last hs h)
  | next h _ ih =>
    obtain ⟨hchecked, hs'⟩ := next hs h
    rw [run_of_next hchecked]
    exact ih hs'

end Loop

end MinCut
