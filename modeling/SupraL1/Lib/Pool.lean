import Mathlib.Data.List.Induction
import Mathlib.Algebra.BigOperators.Group.List.Basic
import Mathlib.Algebra.GroupWithZero.Nat

/-!
# Processes on a shared state

A configuration is a shared state and the list of the processes that work on it; a process that has
ended stays in the list with its result. An act starts a process or gives one a turn, which is one
atomic step together with what the environment answers in it. A list of acts is an interleaving.

`act_step` says once what an act can do. `run_inv` is the invariant rule; `Along` states a condition
on every act of a run and the configuration before it. `Exclusive` counts who holds a resource, and
`Alone` has the turns of one process without those of others.
-/

set_option autoImplicit false

namespace Pool

structure Config (σ π : Type) where
  shared : σ
  procs : List π

inductive Act (α ι : Type) where
  | start (a : α)
  | turn (i : Nat) (input : ι)
  deriving DecidableEq, Repr

/-- The processes: how one starts, and its next step, which may fork others; an ended process has
no step. -/
structure Machine (α ι σ π : Type) where
  init : α → π
  step : ι → σ → π → Option (σ × π × List π)

variable {α ι σ π : Type}

def act (M : Machine α ι σ π) (c : Config σ π) : Act α ι → Config σ π
  | .start a => ⟨c.shared, c.procs ++ [M.init a]⟩
  | .turn i input =>
    match c.procs[i]? with
    | none => c
    | some p => match M.step input c.shared p with
      | none => c
      | some (s, p', new) => ⟨s, c.procs.set i p' ++ new⟩

def run (M : Machine α ι σ π) (c : Config σ π) (acts : List (Act α ι)) : Config σ π :=
  acts.foldl (act M) c

/-- What an act can do. -/
inductive Step (M : Machine α ι σ π) (c : Config σ π) : Act α ι → Config σ π → Prop where
  | start (a : α) : Step M c (.start a) ⟨c.shared, c.procs ++ [M.init a]⟩
  | turn {l r new : List π} {p p' : π} {s : σ} {input : ι} (hprocs : c.procs = l ++ p :: r)
      (hstep : M.step input c.shared p = some (s, p', new)) :
      Step M c (.turn l.length input) ⟨s, l ++ p' :: (r ++ new)⟩
  | idle {i : Nat} {input : ι} (hidle : ∀ p, c.procs[i]? = some p → M.step input c.shared p = none) :
      Step M c (.turn i input) c

variable {M : Machine α ι σ π} {c : Config σ π}

theorem act_step (a : Act α ι) : Step M c a (act M c a) := by
  cases a with
  | start a => exact .start a
  | turn i input =>
    unfold act
    dsimp only
    split
    · rename_i hp
      exact .idle fun p h => by rw [hp] at h; cases h
    · rename_i p hp
      split
      · rename_i hs
        exact .idle fun q h => by rw [hp] at h; cases h; exact hs
      · rename_i s p' new hs
        obtain ⟨hi, hpi⟩ := List.getElem?_eq_some_iff.1 hp
        have hprocs : c.procs = c.procs.take i ++ p :: c.procs.drop (i + 1) := by
          rw [← hpi, List.getElem_cons_drop, List.take_append_drop]
        have h := Step.turn hprocs hs
        rwa [List.length_take_of_le (Nat.le_of_lt hi), ← List.cons_append, ← List.append_assoc,
          ← List.set_eq_take_cons_drop p' hi] at h

@[simp] theorem run_nil : run M c [] = c := rfl

@[simp] theorem run_snoc (acts : List (Act α ι)) (a : Act α ι) :
    run M c (acts ++ [a]) = act M (run M c acts) a := by
  simp [run, List.foldl_append]

/-- Every act of the run meets the condition `P` on the configuration before it. -/
def Along (M : Machine α ι σ π) (P : Config σ π → Act α ι → Prop) (c : Config σ π)
    (acts : List (Act α ι)) : Prop :=
  ∀ pre a post, acts = pre ++ a :: post → P (run M c pre) a

theorem along_nil {P : Config σ π → Act α ι → Prop} : Along M P c [] := by
  intro pre a post h
  simp at h

theorem along_cons {P : Config σ π → Act α ι → Prop} {a : Act α ι} {acts : List (Act α ι)}
    (ha : P c a) (h : Along M P (act M c a) acts) : Along M P c (a :: acts) := by
  intro pre b post heq
  cases pre with
  | nil =>
    obtain ⟨rfl, -⟩ := List.cons.inj heq
    exact ha
  | cons b' pre =>
    obtain ⟨rfl, hacts⟩ := List.cons.inj heq
    exact h pre b post hacts

/-- A condition that can be decided, checked along a run. -/
def holdsAlong (M : Machine α ι σ π) (P : Config σ π → Act α ι → Prop) [∀ c a, Decidable (P c a)] :
    Config σ π → List (Act α ι) → Bool
  | _, [] => true
  | c, a :: acts => decide (P c a) && holdsAlong M P (act M c a) acts

theorem along_of_holdsAlong {P : Config σ π → Act α ι → Prop} [∀ c a, Decidable (P c a)]
    {acts : List (Act α ι)} (h : holdsAlong M P c acts = true) : Along M P c acts := by
  induction acts generalizing c with
  | nil => exact along_nil
  | cons a acts ih =>
    obtain ⟨ha, hacts⟩ := Bool.and_eq_true_iff.1 h
    exact along_cons (of_decide_eq_true ha) (ih hacts)

/-- **The invariant rule.** -/
theorem run_inv {P : Config σ π → Act α ι → Prop} {I : Config σ π → Prop}
    (hstep : ∀ c a c', I c → P c a → Step M c a c' → I c') {acts : List (Act α ι)} (h0 : I c)
    (hP : Along M P c acts) : I (run M c acts) := by
  induction acts using List.reverseRecOn with
  | nil => exact h0
  | append_singleton acts a ih =>
    rw [run_snoc]
    refine hstep _ a _ (ih fun pre b post h => hP pre b (post ++ [a]) ?_) (hP acts a [] rfl) (act_step a)
    rw [h, List.append_assoc]
    rfl

/-- A run that meets a condition does so as far as it has gone. -/
theorem Along.of_append {P : Config σ π → Act α ι → Prop} {pre post : List (Act α ι)}
    (h : Along M P c (pre ++ post)) : Along M P c pre := fun pre' a post' heq =>
  h pre' a (post' ++ post) (by rw [heq, List.append_assoc]; rfl)

theorem mem_drop_turn {l r new : List π} {p p' q : π} {n : Nat}
    (h : q ∈ (l ++ p' :: (r ++ new)).drop n) :
    q ∈ (l ++ p :: r).drop n ∨ (q = p' ∧ p ∈ (l ++ p :: r).drop n) ∨ q ∈ new := by
  rcases Nat.lt_or_ge l.length n with hlt | hge
  · obtain ⟨k, rfl⟩ := Nat.exists_eq_add_of_lt hlt
    rw [Nat.add_assoc, List.drop_append, Nat.add_sub_cancel_left, List.drop_succ_cons,
      List.drop_append] at h
    rw [Nat.add_assoc, List.drop_append, Nat.add_sub_cancel_left, List.drop_succ_cons]
    simp only [List.mem_append] at h ⊢
    rcases h with h | h | h
    · exact .inl (.inl h)
    · exact .inl (.inr h)
    · exact .inr (.inr (List.mem_of_mem_drop h))
  · rw [List.drop_append_of_le_length hge] at h ⊢
    simp only [List.mem_append, List.mem_cons] at h ⊢
    rcases h with h | h | h | h
    · exact .inl (.inl h)
    · exact .inr (.inl ⟨h, .inr (.inl trivial)⟩)
    · exact .inl (.inr (.inr h))
    · exact .inr (.inr h)

/-- **The rule for single processes.** What holds of a process when it starts or is forked, is kept
by its own turns and stable under all others holds of every process that was started in the run. -/
theorem run_local {P : Config σ π → Act α ι → Prop} {I : Config σ π → Prop}
    {Q : Config σ π → π → Prop}
    (hI : ∀ c a c', I c → P c a → Step M c a c' → I c')
    (hstable : ∀ c a c' q, I c → P c a → Step M c a c' → Q c q → Q c' q)
    (hinit : ∀ c a, Q c (M.init a))
    (hturn : ∀ c l p r input s p' new, I c → P c (.turn l.length input) → c.procs = l ++ p :: r →
      M.step input c.shared p = some (s, p', new) →
      (Q c p → Q ⟨s, l ++ p' :: (r ++ new)⟩ p') ∧ ∀ q ∈ new, Q ⟨s, l ++ p' :: (r ++ new)⟩ q)
    {acts : List (Act α ι)} (h0 : I c) (hP : Along M P c acts) :
    ∀ q ∈ (run M c acts).procs.drop c.procs.length, Q (run M c acts) q := by
  have hinv : I (run M c acts) ∧ c.procs.length ≤ (run M c acts).procs.length ∧
      ∀ q ∈ (run M c acts).procs.drop c.procs.length, Q (run M c acts) q := by
    refine run_inv (I := fun c' => I c' ∧ c.procs.length ≤ c'.procs.length ∧
      ∀ q ∈ c'.procs.drop c.procs.length, Q c' q) ?_ ⟨h0, Nat.le_refl _, by simp⟩ hP
    rintro c1 a c2 ⟨h1, hlen, hQ⟩ hPa hstep
    have hkeep : ∀ q ∈ c1.procs.drop c.procs.length, Q c2 q := fun q hq =>
      hstable c1 a c2 q h1 hPa hstep (hQ q hq)
    refine ⟨hI c1 a c2 h1 hPa hstep, ?_⟩
    cases hstep with
    | start a =>
      refine ⟨by rw [List.length_append]; omega, fun q hq => ?_⟩
      rw [List.drop_append_of_le_length hlen, List.mem_append, List.mem_singleton] at hq
      rcases hq with hq | rfl
      · exact hkeep q hq
      · exact hinit _ a
    | idle => exact ⟨hlen, hkeep⟩
    | @turn l r new p p' s input hprocs h =>
      obtain ⟨hp, hnew⟩ := hturn c1 l p r input s p' new h1 hPa hprocs h
      refine ⟨?_, fun q hq => ?_⟩
      · rw [hprocs] at hlen
        simp only [List.length_append, List.length_cons] at hlen ⊢
        omega
      · rcases mem_drop_turn (p := p) hq with hold | ⟨rfl, hown⟩ | hfork
        · exact hkeep q (hprocs ▸ hold)
        · exact hp (hQ p (hprocs ▸ hown))
        · exact hnew q hfork
  exact hinv.2.2

/-- The processes with a property: those other than the one at a turn, and this one. -/
theorem countP_split (q : π → Bool) (l r : List π) (p : π) :
    (l ++ p :: r).countP q = (l ++ r).countP q + if q p then 1 else 0 := by
  simp only [List.countP_append, List.countP_cons]
  omega

theorem countP_turn (q : π → Bool) (l r new : List π) (p p' : π) :
    (l ++ p' :: (r ++ new)).countP q + [p].countP q = (l ++ p :: r).countP q + (p' :: new).countP q := by
  rw [countP_split, countP_split]
  simp only [List.countP_append, List.countP_cons, List.countP_nil]
  omega

/-- A quantity summed up over the processes changes at a turn by what it changes in this one. -/
theorem sum_turn (f : π → Nat) (l r : List π) (p p' : π) :
    ((l ++ p' :: r).map f).sum + f p = ((l ++ p :: r).map f).sum + f p' := by
  simp only [List.map_append, List.map_cons, List.sum_append, List.sum_cons]
  omega

theorem mem_turn {l r : List π} {p p' q : π} (h : q ∈ l ++ p' :: r) : q = p' ∨ q ∈ l ++ p :: r := by
  simp only [List.mem_append, List.mem_cons] at h ⊢
  tauto

/-! ## One process alone -/

/-- The turns of one process with no act of another between them, and what it forks; `A` says how a
turn may be answered. -/
inductive Alone (M : Machine α ι σ π) (A : π → ι → Prop) : σ → π → σ → π → List π → Prop where
  | here (s : σ) (p : π) : Alone M A s p s p []
  | next {s s₁ s₂ : σ} {p p₁ p₂ : π} {new new' : List π} {input : ι} (hinput : A p input)
      (hstep : M.step input s p = some (s₁, p₁, new)) (h : Alone M A s₁ p₁ s₂ p₂ new') :
      Alone M A s p s₂ p₂ (new ++ new')

/-! ## Exclusive use -/

section
variable {ρ : Type} {taken : σ → ρ → Bool} {holds : ρ → π → Bool}

/-- A resource that is taken is held by one process, and one that is free by none. -/
def Exclusive (taken : σ → ρ → Bool) (holds : ρ → π → Bool) (c : Config σ π) : Prop :=
  ∀ k, c.procs.countP (holds k) = (taken c.shared k).toNat

theorem Exclusive.taken_of_holds (h : Exclusive taken holds c) {p : π} {k : ρ} (hp : p ∈ c.procs)
    (hk : holds k p = true) : taken c.shared k = true := by
  have hpos : 0 < c.procs.countP (holds k) := List.countP_pos_iff.2 ⟨p, hp, hk⟩
  rw [h k] at hpos
  cases htaken : taken c.shared k with
  | true => rfl
  | false =>
    rw [htaken] at hpos
    cases hpos

theorem Exclusive.start (h : Exclusive taken holds c) {p : π} (hp : ∀ k, holds k p = false) :
    Exclusive taken holds ⟨c.shared, c.procs ++ [p]⟩ := by
  intro k
  rw [List.countP_append, List.countP_singleton, hp k, h k]
  rfl

/-- A turn that passes on what its process holds, takes a resource or gives one back. -/
theorem Exclusive.turn (h : Exclusive taken holds c) {l r new : List π} {p p' : π} {s : σ}
    (hprocs : c.procs = l ++ p :: r)
    (hturn : ∀ k, (p' :: new).countP (holds k) + (taken c.shared k).toNat =
      [p].countP (holds k) + (taken s k).toNat) :
    Exclusive taken holds ⟨s, l ++ p' :: (r ++ new)⟩ := by
  intro k
  have hcount := countP_turn (holds k) l r new p p'
  have hk := hturn k
  rw [← hprocs, h k] at hcount
  dsimp only
  omega

end

end Pool
