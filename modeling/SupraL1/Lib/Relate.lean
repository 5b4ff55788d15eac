import SupraL1.Lib.Run

/-!
# Two runs of one computation

`Tracks P Q Z m`: from two states related by `P` the computation `m` returns the same in both, and
ends in states related by `Q`, or by `Z` after an error. The rules follow the constructors of
`EStateM`; `tracks_results` and `tracks_steps` lift a machine's steps to its runs.
-/

set_option autoImplicit false

namespace EState

variable {ε σ τ α β : Type}

/-- Both computations return the same and end in related states. -/
def Matches (Q Z : σ → σ → Prop) : EStateM.Result ε σ α → EStateM.Result ε σ α → Prop
  | .ok a s, .ok b t => a = b ∧ Q s t
  | .error e s, .error f t => e = f ∧ Z s t
  | _, _ => False

def Tracks (P Q Z : σ → σ → Prop) (m : EStateM ε σ α) : Prop :=
  ∀ s t, P s t → Matches Q Z (m s) (m t)

variable {P P' Q Q' Z Z' : σ → σ → Prop} {m : EStateM ε σ α} {s t : σ}

theorem Matches.outcome (h : Matches Q Z (m s) (m t)) : outcome m s = outcome m t := by
  unfold EState.outcome
  cases hs : m s <;> cases ht : m t <;> rw [hs, ht] at h <;> first | exact h.elim | rw [h.1]

theorem Matches.after (h : Matches Q Q (m s) (m t)) : Q (after m s) (after m t) := by
  unfold EState.after
  cases hs : m s <;> cases ht : m t <;> rw [hs, ht] at h <;> first | exact h.elim | exact h.2

namespace Tracks

theorem ret {a : α} (h : ∀ s t, P s t → Q s t) : Tracks P Q Z (pure a : EStateM ε σ α) :=
  fun s t hst => ⟨rfl, h s t hst⟩

theorem fail {e : ε} (h : ∀ s t, P s t → Z s t) : Tracks P Q Z (throw e : EStateM ε σ α) :=
  fun s t hst => ⟨rfl, h s t hst⟩

theorem act {f : σ → σ} (h : ∀ s t, P s t → Q (f s) (f t)) :
    Tracks P Q Z (modify f : EStateM ε σ Unit) :=
  fun s t hst => ⟨rfl, h s t hst⟩

theorem bind {k : α → EStateM ε σ β} (hm : Tracks P Q Z m) (hk : ∀ a, Tracks Q Q' Z (k a)) :
    Tracks P Q' Z (m >>= k) := by
  intro s t hst
  have h := hm s t hst
  rw [bind_apply, bind_apply]
  cases hs : m s with
  | ok a s' =>
    cases ht : m t with
    | ok b t' =>
      rw [hs, ht] at h
      obtain ⟨rfl, h⟩ := h
      exact hk a s' t' h
    | error e t' => rw [hs, ht] at h; exact h.elim
  | error e s' =>
    cases ht : m t with
    | ok b t' => rw [hs, ht] at h; exact h.elim
    | error f t' => rw [hs, ht] at h; exact h

theorem attempt (h : Tracks P Q Q m) : Tracks P Q Z (attempt m) := by
  intro s t hst
  have h1 := h s t hst
  rw [attempt_apply, attempt_apply]
  exact ⟨h1.outcome, h1.after⟩

end Tracks

section
variable {machine : τ → EStateM ε σ α} (h : ∀ x, Tracks Q Q Q (machine x))
include h

theorem tracks_steps (hst : Q s t) (xs : List τ) : Q (steps machine s xs) (steps machine t xs) := by
  induction xs generalizing s t with
  | nil => exact hst
  | cons x xs ih => exact ih (h x s t hst).after

theorem tracks_results (hst : Q s t) (xs : List τ) :
    results machine s xs = results machine t xs := by
  induction xs generalizing s t with
  | nil => rfl
  | cons x xs ih =>
    unfold results
    rw [(h x s t hst).outcome, ih (h x s t hst).after]

end

end EState
