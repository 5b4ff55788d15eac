import Mathlib.Data.List.Induction
import SupraL1.Lib.EState

/-!
# Runs of a machine

A machine takes one trigger at a time: `m t` is the computation that handles `t`. `steps` is the
state after a sequence of triggers, whatever the steps return, and `results` what they returned.
`steps_inv` is the invariant rule; the invariant sees the triggers so far, and a step may use what
is known of the run's triggers.
-/

set_option autoImplicit false

namespace EState

variable {ε σ τ α : Type}

/-- The state after handling the triggers `ts` one after the other. -/
def steps (m : τ → EStateM ε σ α) (s : σ) (ts : List τ) : σ := ts.foldl (fun s t => after (m t) s) s

/-- What the steps return, in order. -/
def results (m : τ → EStateM ε σ α) : σ → List τ → List (Except ε α)
  | _, [] => []
  | s, t :: ts => outcome (m t) s :: results m (after (m t) s) ts

variable {m : τ → EStateM ε σ α} {s : σ}

@[simp] theorem steps_nil : steps m s [] = s := rfl

@[simp] theorem steps_cons (t : τ) (ts : List τ) :
    steps m s (t :: ts) = steps m (after (m t) s) ts := rfl

theorem steps_append (ts us : List τ) : steps m s (ts ++ us) = steps m (steps m s ts) us := by
  simp [steps, List.foldl_append]

@[simp] theorem steps_snoc (ts : List τ) (t : τ) :
    steps m s (ts ++ [t]) = after (m t) (steps m s ts) := by
  rw [steps_append]; rfl

/-- A result of a run is the result of one of its steps. -/
theorem mem_results {r : Except ε α} {ts : List τ} :
    r ∈ results m s ts ↔
      ∃ pre t post, ts = pre ++ t :: post ∧ r = outcome (m t) (steps m s pre) := by
  induction ts generalizing s with
  | nil => simp [results]
  | cons t ts ih =>
    rw [results, List.mem_cons, ih]
    constructor
    · rintro (rfl | ⟨pre, u, post, rfl, rfl⟩)
      · exact ⟨[], t, ts, rfl, rfl⟩
      · exact ⟨t :: pre, u, post, rfl, rfl⟩
    · rintro ⟨pre, u, post, h, rfl⟩
      cases pre with
      | nil =>
        obtain ⟨rfl, rfl⟩ := List.cons.inj h
        exact .inl rfl
      | cons v pre =>
        obtain ⟨rfl, rfl⟩ := List.cons.inj h
        exact .inr ⟨pre, u, post, rfl, rfl⟩

/-- **The invariant rule**: what holds at the start and is carried over every step of the run holds
after it. -/
theorem steps_inv {I : List τ → σ → Prop} {ts : List τ} (h0 : I [] s)
    (hstep : ∀ pre t post, ts = pre ++ t :: post → I pre (steps m s pre) →
      I (pre ++ [t]) (after (m t) (steps m s pre))) : I ts (steps m s ts) := by
  induction ts using List.reverseRecOn with
  | nil => exact h0
  | append_singleton ts t ih =>
    rw [steps_snoc]
    refine hstep ts t [] rfl (ih fun pre u post h => hstep pre u (post ++ [t]) ?_)
    rw [h]; simp

end EState
