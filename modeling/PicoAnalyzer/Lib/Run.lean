import Mathlib.Data.List.Infix
import Mathlib.Tactic.Common

/-!
# Runs of a step that can fail

A run applies a step to a state for every event of a sequence and ends at the
first step that fails.

Results: `run_concat`, `run_concat_ok` (a run and one more event) and `run_history`
(the induction rule: a relation between the events so far and the state that every
step of the run carries on holds at its end).
-/

namespace Run

variable {σ α ε : Type} (step : σ → α → Except ε σ)

/-- The state after the events. -/
def run (s : σ) (events : List α) : Except ε σ := events.foldlM step s

@[simp] theorem run_nil (s : σ) : run step s [] = .ok s := rfl

theorem run_concat (s : σ) (l : List α) (a : α) :
    run step s (l ++ [a]) = (run step s l >>= fun t => step t a) := by
  simp [run, List.foldlM_append]

variable {step}

theorem run_concat_ok {s t : σ} {l : List α} {a : α} :
    run step s (l ++ [a]) = .ok t ↔ ∃ m, run step s l = .ok m ∧ step m a = .ok t := by
  rw [run_concat]
  cases h : run step s l with
  | ok m =>
    constructor
    · exact fun ht => ⟨m, rfl, ht⟩
    · rintro ⟨k, hk, ht⟩
      cases hk
      exact ht
  | error e =>
    constructor
    · intro ht
      cases ht
    · rintro ⟨k, hk, -⟩
      cases hk

/-- What every step of a run carries on from the events before it to the events with it holds of the
run. -/
theorem run_history {R : List α → σ → Prop} {s : σ} (h0 : R [] s)
    (hstep : ∀ l m a t, run step s l = .ok m → R l m → step m a = .ok t → R (l ++ [a]) t)
    {l : List α} {t : σ}
    (h : run step s l = .ok t) : R l t := by
  induction l using List.reverseRecOn generalizing t with
  | nil =>
    cases h
    exact h0
  | append_singleton l a ih =>
    obtain ⟨m, hm, ht⟩ := run_concat_ok.mp h
    exact hstep l m a t hm (ih hm) ht

end Run
