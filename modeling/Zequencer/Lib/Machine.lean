/-
# Machines that answer

A machine takes one operation at a time and answers it.  Two machines answer alike when their
states can be kept in a relation under which every pair of steps answers the same.
-/
import Mathlib.Data.List.Basic
import Mathlib.Tactic.Common

namespace Machine

variable {σ τ ι ο : Type*}

/-- The state after these operations, and the answers to them. -/
def run (step : σ → ι → σ × ο) (s : σ) : List ι → σ × List ο
  | [] => (s, [])
  | op :: ops => ((run step (step s op).1 ops).1, (step s op).2 :: (run step (step s op).1 ops).2)

/-- Steps on these operations answer alike from related states, and lead to related states. -/
structure Simulates (step : σ → ι → σ × ο) (step' : τ → ι → τ × ο) (R : σ → τ → Prop)
    (ok : ι → Prop) : Prop where
  answer : ∀ s t op, ok op → R s t → (step s op).2 = (step' t op).2
  state : ∀ s t op, ok op → R s t → R (step s op).1 (step' t op).1

/-- **Simulation.**  Runs from related states answer alike, and end in related states. -/
theorem Simulates.run {step : σ → ι → σ × ο} {step' : τ → ι → τ × ο} {R : σ → τ → Prop}
    {ok : ι → Prop} (h : Simulates step step' R ok) {s : σ} {t : τ} (hR : R s t) (ops : List ι)
    (hops : ∀ op ∈ ops, ok op) :
    (Machine.run step s ops).2 = (Machine.run step' t ops).2 ∧
      R (Machine.run step s ops).1 (Machine.run step' t ops).1 := by
  induction ops generalizing s t with
  | nil => exact ⟨rfl, hR⟩
  | cons op ops ih =>
    have hop := hops op List.mem_cons_self
    obtain ⟨hanswers, hfinal⟩ :=
      ih (h.state s t op hop hR) fun op' hop' => hops op' (List.mem_cons_of_mem op hop')
    refine ⟨?_, hfinal⟩
    show (step s op).2 :: _ = (step' t op).2 :: _
    rw [h.answer s t op hop hR, hanswers]

end Machine
