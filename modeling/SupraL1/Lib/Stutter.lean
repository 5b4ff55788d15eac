import Mathlib.Data.List.Destutter
import SupraL1.Lib.Linked

/-!
# Linked sequences with repetitions, and two of them side by side

A process that is stopped may repeat its last item when it is started again. `l.destutter (· ≠ ·)`
drops such immediate repetitions; the lemmas say what one more item does to it. `comparable`: when
at most one item may follow each point, two linked sequences with one start do not part.
-/

set_option autoImplicit false

namespace Linked

variable {ι α κ : Type} {ext : ι → α → Prop} {info : α → ι}

theorem tip_eq_getLast? (i : ι) (l : List α) : tip info i l = (l.getLast?.map info).getD i := by
  rcases List.eq_nil_or_concat l with rfl | ⟨l, a, rfl⟩
  · rfl
  · simp

theorem tip_of_getLast? (i : ι) {l : List α} {a : α} (h : l.getLast? = some a) :
    tip info i l = info a := by
  rw [tip_eq_getLast?, h]; rfl

/-! ## Repetitions -/

section
variable [DecidableEq α]

theorem getLast?_destutter' (a : α) (l : List α) :
    (l.destutter' (· ≠ ·) a).getLast? = (a :: l).getLast? := by
  induction l generalizing a with
  | nil => rfl
  | cons b l ih =>
    by_cases hab : a = b
    · subst hab
      rw [List.destutter'_cons_neg _ (by simp), ih, List.getLast?_cons_cons]
    · rw [List.destutter'_cons_pos _ hab, List.getLast?_cons_cons, ← ih b]
      cases h : l.destutter' (· ≠ ·) b with
      | nil => exact absurd h (List.destutter'_ne_nil _ _)
      | cons c m => exact List.getLast?_cons_cons

theorem destutter'_snoc (a b : α) (l : List α) :
    (l ++ [b]).destutter' (· ≠ ·) a =
      if (a :: l).getLast? = some b then l.destutter' (· ≠ ·) a
      else l.destutter' (· ≠ ·) a ++ [b] := by
  induction l generalizing a with
  | nil => by_cases hab : a = b <;> simp [List.destutter', hab]
  | cons c l ih =>
    by_cases hac : a = c
    · subst hac
      rw [List.cons_append, List.destutter'_cons_neg _ (by simp), ih,
        List.destutter'_cons_neg _ (by simp), List.getLast?_cons_cons]
    · rw [List.cons_append, List.destutter'_cons_pos _ hac, ih, List.destutter'_cons_pos _ hac,
        List.getLast?_cons_cons]
      split <;> rfl

/-- A repetition of the last item is dropped. -/
theorem destutter_snoc_again {l : List α} {b : α} (h : l.getLast? = some b) :
    (l ++ [b]).destutter (· ≠ ·) = l.destutter (· ≠ ·) := by
  cases l with
  | nil => cases h
  | cons a l => rw [List.cons_append, List.destutter_cons', List.destutter_cons', destutter'_snoc,
      if_pos h]

/-- Another item is kept. -/
theorem destutter_snoc_next {l : List α} {b : α} (h : l.getLast? ≠ some b) :
    (l ++ [b]).destutter (· ≠ ·) = l.destutter (· ≠ ·) ++ [b] := by
  cases l with
  | nil => rfl
  | cons a l => rw [List.cons_append, List.destutter_cons', List.destutter_cons', destutter'_snoc,
      if_neg h]

theorem tip_destutter (i : ι) (l : List α) : tip info i (l.destutter (· ≠ ·)) = tip info i l := by
  cases l with
  | nil => rfl
  | cons a l => rw [tip_eq_getLast?, tip_eq_getLast?, List.destutter_cons', getLast?_destutter']

end

/-! ## Two sequences -/

/-- Two linked sequences with one start, when at most one item, up to `f`, follows each point:
one is a beginning of the other. -/
theorem comparable {G : α → Prop} {f : α → κ}
    (huniq : ∀ i a b, G a → G b → ext i a → ext i b → f a = f b)
    (hinfo : ∀ a b, f a = f b → info a = info b) {i : ι} {l l' : List α}
    (h : From ext info i l) (h' : From ext info i l') (hl : ∀ a ∈ l, G a) (hl' : ∀ a ∈ l', G a) :
    l.map f <+: l'.map f ∨ l'.map f <+: l.map f := by
  induction l generalizing i l' with
  | nil => exact .inl List.nil_prefix
  | cons a l ih =>
    cases l' with
    | nil => exact .inr List.nil_prefix
    | cons b l' =>
      have hab : f a = f b :=
        huniq i a b (hl a List.mem_cons_self) (hl' b List.mem_cons_self) h.1 h'.1
      have hrest : From ext info (info a) l' := by rw [hinfo a b hab]; exact h'.2
      have hcmp := ih h.2 hrest (fun c hc => hl c (List.mem_cons_of_mem a hc))
        fun c hc => hl' c (List.mem_cons_of_mem b hc)
      simpa only [List.map_cons, hab, List.cons_prefix_cons, true_and] using hcmp

end Linked
