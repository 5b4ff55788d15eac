import Mathlib.Logic.Relation

/-!
# Computations that fail and keep their state

`EStateM ε σ` is the shape of a method that takes its object by mutable reference and may return
an error early: the error leaves the state as far as the computation had got. This file adds

* `after`, `outcome`: the state a computation ends in and its result, whichever way it ends;
* `onPart`: a computation on a part of the state, with its errors converted;
* `attempt`: the error as a value;
* `Does R P m Q Z`: from a state in `P`, `m` is a sequence of atomic steps `R`, and ends with a
  result and state in `Q` or with an error and state in `Z`. Its rules follow the constructors
  of `EStateM`, so a function's atomic steps are those of the functions it calls, in order.
-/

set_option autoImplicit false

namespace EState

open Relation

variable {ε ε' σ τ α β : Type}

@[simp] theorem pure_apply (a : α) (s : σ) : (pure a : EStateM ε σ α) s = .ok a s := rfl

@[simp] theorem throw_apply (e : ε) (s : σ) : (throw e : EStateM ε σ α) s = .error e s := rfl

@[simp] theorem get_apply (s : σ) : (get : EStateM ε σ σ) s = .ok s s := rfl

@[simp] theorem modify_apply (f : σ → σ) (s : σ) : (modify f : EStateM ε σ Unit) s = .ok () (f s) := rfl

theorem bind_apply (m : EStateM ε σ α) (k : α → EStateM ε σ β) (s : σ) :
    (m >>= k) s = match m s with
      | .ok a s' => k a s'
      | .error e s' => .error e s' := rfl

theorem bind_ok {m : EStateM ε σ α} {s s' : σ} {a : α} (h : m s = .ok a s')
    (k : α → EStateM ε σ β) : (m >>= k) s = k a s' := by rw [bind_apply, h]

theorem bind_error {m : EStateM ε σ α} {s s' : σ} {e : ε} (h : m s = .error e s')
    (k : α → EStateM ε σ β) : (m >>= k) s = .error e s' := by rw [bind_apply, h]

theorem bind_ok_iff {m : EStateM ε σ α} {k : α → EStateM ε σ β} {s s' : σ} {b : β} :
    (m >>= k) s = .ok b s' ↔ ∃ a s1, m s = .ok a s1 ∧ k a s1 = .ok b s' := by
  rw [bind_apply]
  cases m s with
  | error e s1 => exact ⟨nofun, fun ⟨_, _, h, _⟩ => nomatch h⟩
  | ok a s1 =>
    refine ⟨fun h => ⟨a, s1, rfl, h⟩, ?_⟩
    rintro ⟨a', s2, h, hk⟩
    cases h
    exact hk

@[simp] theorem get_bind (k : σ → EStateM ε σ β) (s : σ) : (get >>= k) s = k s s := rfl

@[simp] theorem modify_bind (f : σ → σ) (k : Unit → EStateM ε σ β) (s : σ) :
    ((modify f : EStateM ε σ Unit) >>= k) s = k () (f s) := rfl

/-- A result that does not touch the state. -/
def ofResult (x : Except ε α) : EStateM ε σ α := fun s =>
  match x with
  | .ok a => .ok a s
  | .error e => .error e s

@[simp] theorem ofResult_ok (a : α) (s : σ) : (ofResult (.ok a) : EStateM ε σ α) s = .ok a s := rfl

@[simp] theorem ofResult_ok_bind (a : α) (k : α → EStateM ε σ β) (s : σ) :
    (ofResult (.ok a) >>= k) s = k a s := rfl

/-! ## The end of a computation -/

/-- The state `m` ends in. -/
def after (m : EStateM ε σ α) (s : σ) : σ :=
  match m s with
  | .ok _ s' => s'
  | .error _ s' => s'

/-- What `m` returns. -/
def outcome (m : EStateM ε σ α) (s : σ) : Except ε α :=
  match m s with
  | .ok a _ => .ok a
  | .error e _ => .error e

theorem after_ok {m : EStateM ε σ α} {s s' : σ} {a : α} (h : m s = .ok a s') : after m s = s' := by
  simp [after, h]

theorem after_error {m : EStateM ε σ α} {s s' : σ} {e : ε} (h : m s = .error e s') :
    after m s = s' := by
  simp [after, h]

theorem after_bind_ok {m : EStateM ε σ α} {s s' : σ} {a : α} (h : m s = .ok a s')
    (k : α → EStateM ε σ β) : after (m >>= k) s = after (k a) s' := by
  unfold after
  rw [bind_ok h]

theorem after_get_bind (k : σ → EStateM ε σ β) (s : σ) : after (get >>= k) s = after (k s) s := rfl

theorem after_bind_pure (m : EStateM ε σ α) (b : β) (s : σ) :
    after (m >>= fun _ => pure b) s = after m s := by
  unfold after
  rw [bind_apply]
  cases m s <;> rfl

theorem outcome_ok {m : EStateM ε σ α} {s s' : σ} {a : α} (h : m s = .ok a s') :
    outcome m s = .ok a := by
  simp [outcome, h]

theorem outcome_error {m : EStateM ε σ α} {s s' : σ} {e : ε} (h : m s = .error e s') :
    outcome m s = .error e := by
  simp [outcome, h]

/-! ## Parts of the state, errors as values -/

/-- `m` on the part `get t` of a state `t`. -/
def onPart (get : τ → σ) (put : σ → τ → τ) (conv : ε → ε') (m : EStateM ε σ α) :
    EStateM ε' τ α := fun t =>
  match m (get t) with
  | .ok a s => .ok a (put s t)
  | .error e s => .error (conv e) (put s t)

theorem onPart_ok {get : τ → σ} {put : σ → τ → τ} {conv : ε → ε'} {m : EStateM ε σ α} {t : τ}
    {a : α} {s : σ} (h : m (get t) = .ok a s) : onPart get put conv m t = .ok a (put s t) := by
  simp [onPart, h]

theorem onPart_bind {get : τ → σ} {put : σ → τ → τ} (conv : ε → ε')
    (hg : ∀ s t, get (put s t) = s) (hp : ∀ s s' t, put s' (put s t) = put s' t)
    (m : EStateM ε σ α) (k : α → EStateM ε σ β) :
    onPart get put conv (m >>= k) = onPart get put conv m >>= fun a => onPart get put conv (k a) := by
  funext t
  simp only [onPart, bind_apply]
  cases m (get t) with
  | error e s => rfl
  | ok a s =>
    simp only [hg]
    cases k a s <;> simp only [hp]

/-- `m` with its error, if any, as a value. -/
def attempt (m : EStateM ε σ α) : EStateM ε σ (Except ε α) := fun s =>
  match m s with
  | .ok a s' => .ok (.ok a) s'
  | .error e s' => .ok (.error e) s'

theorem attempt_apply (m : EStateM ε σ α) (s : σ) :
    attempt m s = .ok (outcome m s) (after m s) := by
  unfold attempt outcome after
  cases m s <;> rfl

/-! ## Atomic steps -/

/-- The end of a computation: its state is reached from `s` by steps `R`, and `Q` or `Z` holds. -/
def Ends (R : σ → σ → Prop) (s : σ) (Q : α → σ → Prop) (Z : ε → σ → Prop) :
    EStateM.Result ε σ α → Prop
  | .ok a s' => ReflTransGen R s s' ∧ Q a s'
  | .error e s' => ReflTransGen R s s' ∧ Z e s'

theorem Ends.head {R : σ → σ → Prop} {s s' : σ} {Q : α → σ → Prop} {Z : ε → σ → Prop}
    {r : EStateM.Result ε σ α} (h : Ends R s' Q Z r) (hs : R s s') : Ends R s Q Z r := by
  cases r with
  | ok a t => exact ⟨h.1.head hs, h.2⟩
  | error e t => exact ⟨h.1.head hs, h.2⟩

theorem Ends.after {R : σ → σ → Prop} {s : σ} {m : EStateM ε σ α} {Q : α → σ → Prop}
    {Z : ε → σ → Prop} (h : Ends R s Q Z (m s)) : ReflTransGen R s (after m s) := by
  cases hm : m s with
  | ok a t => rw [hm] at h; rw [after_ok hm]; exact h.1
  | error e t => rw [hm] at h; rw [after_error hm]; exact h.1

/-- From a state in `P`, `m` is a sequence of steps `R` that ends in `Q` or in `Z`. -/
def Does (R : σ → σ → Prop) (P : σ → Prop) (m : EStateM ε σ α) (Q : α → σ → Prop)
    (Z : ε → σ → Prop) : Prop := ∀ s, P s → Ends R s Q Z (m s)

namespace Does

variable {R : σ → σ → Prop} {P P' : σ → Prop} {m : EStateM ε σ α} {Q Q' : α → σ → Prop}
  {Z Z' : ε → σ → Prop}

theorem ret {a : α} (h : ∀ s, P s → Q a s) : Does R P (pure a : EStateM ε σ α) Q Z :=
  fun s hs => ⟨.refl, h s hs⟩

theorem fail {e : ε} (h : ∀ s, P s → Z e s) : Does R P (throw e : EStateM ε σ α) Q Z :=
  fun s hs => ⟨.refl, h s hs⟩

/-- One atomic step. -/
theorem act {f : σ → σ} {Q : Unit → σ → Prop} (hR : ∀ s, P s → R s (f s))
    (hQ : ∀ s, P s → Q () (f s)) : Does R P (modify f : EStateM ε σ Unit) Q Z :=
  fun s hs => ⟨.single (hR s hs), hQ s hs⟩

/-- Reading the state. -/
theorem read {k : σ → EStateM ε σ β} {Q : β → σ → Prop}
    (h : ∀ s, P s → Ends R s Q Z (k s s)) : Does R P (get >>= k) Q Z := h

theorem bind {k : α → EStateM ε σ β} {Q' : β → σ → Prop} (hm : Does R P m Q Z)
    (hk : ∀ a, Does R (Q a) (k a) Q' Z) : Does R P (m >>= k) Q' Z := by
  intro s hs
  have h1 := hm s hs
  rw [bind_apply]
  cases hms : m s with
  | error e s' =>
    rw [hms] at h1
    exact h1
  | ok a s' =>
    rw [hms] at h1
    have h2 := hk a s' h1.2
    show Ends R s Q' Z (k a s')
    cases hka : k a s' with
    | ok b s'' => rw [hka] at h2; exact ⟨h1.1.trans h2.1, h2.2⟩
    | error e s'' => rw [hka] at h2; exact ⟨h1.1.trans h2.1, h2.2⟩

theorem conseq (h : Does R P m Q Z) (hP : ∀ s, P' s → P s) (hQ : ∀ a s, Q a s → Q' a s)
    (hZ : ∀ e s, Z e s → Z' e s) : Does R P' m Q' Z' := by
  intro s hs
  have h1 := h s (hP s hs)
  cases hm : m s with
  | ok a s' => rw [hm] at h1; exact ⟨h1.1, hQ _ _ h1.2⟩
  | error e s' => rw [hm] at h1; exact ⟨h1.1, hZ _ _ h1.2⟩

theorem ite {c : Prop} [Decidable c] {m' : EStateM ε σ α}
    (h1 : c → Does R P m Q Z) (h2 : ¬ c → Does R P m' Q Z) :
    Does R P (if c then m else m') Q Z := by
  split
  · exact h1 ‹_›
  · exact h2 ‹_›

/-- What every step `R` keeps holds again at the end. -/
theorem keep {I : σ → Prop} (hI : ∀ s s', I s → R s s' → I s') (h : Does R (fun s => I s ∧ P s) m Q Z) :
    Does R (fun s => I s ∧ P s) m (fun a s => I s ∧ Q a s) (fun e s => I s ∧ Z e s) := by
  have star : ∀ {s s'}, I s → ReflTransGen R s s' → I s' := by
    intro s s' hs hr
    induction hr with
    | refl => exact hs
    | tail _ hstep ih => exact hI _ _ ih hstep
  intro s hs
  have h1 := h s hs
  cases hm : m s with
  | ok a s' => rw [hm] at h1; exact ⟨h1.1, star hs.1 h1.1, h1.2⟩
  | error e s' => rw [hm] at h1; exact ⟨h1.1, star hs.1 h1.1, h1.2⟩

end Does

/-! ## Frames -/

/-- `m` leaves the part `f` of the state as it is, whichever way it ends. -/
def Keeps (f : σ → β) (m : EStateM ε σ α) : Prop := ∀ s, f (after m s) = f s

namespace Keeps

variable {γ : Type} {f : σ → γ} {m : EStateM ε σ α}

theorem ret (a : α) : Keeps f (pure a : EStateM ε σ α) := fun _ => rfl

theorem fail (e : ε) : Keeps f (throw e : EStateM ε σ α) := fun _ => rfl

theorem result (x : Except ε α) : Keeps f (ofResult x : EStateM ε σ α) := fun _ => by cases x <;> rfl

theorem act {g : σ → σ} (h : ∀ s, f (g s) = f s) : Keeps f (modify g : EStateM ε σ Unit) := h

theorem read {k : σ → EStateM ε σ α} (h : ∀ s, Keeps f (k s)) : Keeps f (get >>= k) :=
  fun s => h s s

theorem bind {k : α → EStateM ε σ β} (hm : Keeps f m) (hk : ∀ a, Keeps f (k a)) :
    Keeps f (m >>= k) := by
  intro s
  have h1 := hm s
  cases hms : m s with
  | error e s' => rw [after_error hms] at h1; rw [after_error (bind_error hms k)]; exact h1
  | ok a s' =>
    rw [after_ok hms] at h1
    have h2 := hk a s'
    unfold after at h2 ⊢
    rw [bind_ok hms k, h2, h1]

theorem ite {c : Prop} [Decidable c] {m' : EStateM ε σ α} (h1 : Keeps f m) (h2 : Keeps f m') :
    Keeps f (if c then m else m') := by
  split
  · exact h1
  · exact h2

theorem comp {δ : Type} (h : Keeps f m) (g : γ → δ) : Keeps (fun s => g (f s)) m :=
  fun s => congrArg g (h s)

/-- What follows `m` and leaves `f` alone does not matter for it. -/
theorem after_bind_eq {k : α → EStateM ε σ β} (hk : ∀ a, Keeps f (k a)) (s : σ) :
    f (after (m >>= k) s) = f (after m s) := by
  cases hms : m s with
  | error e s' => rw [after_error hms, after_error (bind_error hms k)]
  | ok a s' => rw [after_ok hms, after_bind_ok hms, hk a s']

/-- What `m` leaves alone and did not hold before can only come from what follows `m`. -/
theorem after_bind_iff {P : σ → Prop} {k : α → EStateM ε σ β} {s : σ} (hm : Keeps P m)
    (hs : ¬ P s) : P (after (m >>= k) s) ↔ ∃ a s', m s = .ok a s' ∧ P (after (k a) s') := by
  have hP := hm s
  cases hms : m s with
  | error e s' =>
    rw [after_error hms] at hP
    rw [after_error (bind_error hms k), hP]
    exact ⟨fun h => absurd h hs, fun ⟨_, _, h, _⟩ => nomatch h⟩
  | ok a s' =>
    rw [after_bind_ok hms]
    refine ⟨fun h => ⟨a, s', rfl, h⟩, ?_⟩
    rintro ⟨a', s'', h, hP'⟩
    cases h
    exact hP'

/-- What is said of `f` alone still holds after `m`. -/
theorem does {R : σ → σ → Prop} {P : γ → Prop} (h : Keeps f m)
    (hR : ∀ s, R s (after m s)) :
    Does R (fun s => P (f s)) m (fun _ s => P (f s)) (fun _ s => P (f s)) := by
  intro s hs
  have hf := h s
  have hr := hR s
  cases hm : m s with
  | ok a s' =>
    rw [after_ok hm] at hf hr
    exact ⟨.single hr, by show P (f s'); rw [hf]; exact hs⟩
  | error e s' =>
    rw [after_error hm] at hf hr
    exact ⟨.single hr, by show P (f s'); rw [hf]; exact hs⟩

end Keeps

end EState
