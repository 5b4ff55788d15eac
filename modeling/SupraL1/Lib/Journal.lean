import Mathlib.Data.List.Infix

/-!
# What holds at every point of a log

A process that appends to a log may stop after any of its entries. `Always P base log` says that
`P` holds of every prefix of `log` that goes at least as far as `base`: of what is left when the
process stops at that point. `Each R log` says that `R` holds of every entry and the entries before it.
-/

set_option autoImplicit false

namespace Journal

variable {α : Type} {P Q : List α → Prop} {base log p : List α}

def Always (P : List α → Prop) (base log : List α) : Prop := ∀ p, base <+: p → p <+: log → P p

theorem always_start (h : P base) : Always P base base := fun p h1 h2 => by
  have heq : p = base := h2.eq_of_length (Nat.le_antisymm h2.length_le h1.length_le)
  rwa [heq]

theorem Always.of_prefix (h : Always P base log) (hp : p <+: log) : Always P base p :=
  fun q h1 h2 => h q h1 (h2.trans hp)

/-- One more entry is one more point. -/
theorem Always.snoc (h : Always P base log) {a : α} (ha : P (log ++ [a])) :
    Always P base (log ++ [a]) := fun p h1 h2 => by
  rcases List.prefix_concat_iff.1 h2 with rfl | h2
  · exact ha
  · exact h p h1 h2

/-- Every entry is in the relation `R` to those before it. -/
def Each (R : List α → α → Prop) (log : List α) : Prop :=
  ∀ pre a post, log = pre ++ a :: post → R pre a

theorem each_nil {R : List α → α → Prop} : Each R [] := fun pre a post h => by
  cases pre with
  | nil => cases h
  | cons => cases h

theorem Each.snoc {R : List α → α → Prop} {a : α} (h : Each R log) (ha : R log a) :
    Each R (log ++ [a]) := fun pre b post heq => by
  rcases List.eq_nil_or_concat post with rfl | ⟨post, c, rfl⟩
  · obtain ⟨rfl, hb⟩ := List.append_inj' heq rfl
    cases hb
    exact ha
  · rw [List.concat_eq_append, ← List.cons_append, ← List.append_assoc] at heq
    exact h pre b post (List.append_inj' heq rfl).1

end Journal
