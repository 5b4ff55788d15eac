import Mathlib.Data.List.Basic

/-!
# Ring buffers

The cells of a ring of fixed length, read from the next one to be overwritten (`unroll`), are a
window that slides over what is inserted (`slide`): an insertion drops its first value and appends
the new one (`unroll_set`). `ahead` counts the insertions until a given cell is overwritten.
-/

namespace Lib.Ring

variable {α : Type _}

/-! ## The order of insertion -/

/-- The cells from the oldest on, `index` being the next one to be overwritten. -/
def unroll (cells : List α) (index : Nat) : List α := cells.drop index ++ cells.take index

theorem unroll_zero (cells : List α) : unroll cells 0 = cells := by simp [unroll]

theorem unroll_append (l r : List α) : unroll (l ++ r) l.length = r ++ l := by simp [unroll]

theorem unroll_perm (cells : List α) (index : Nat) : (unroll cells index).Perm cells := by
  unfold unroll
  refine List.perm_append_comm.trans ?_
  rw [List.take_append_drop]

@[simp] theorem length_unroll (cells : List α) (index : Nat) :
    (unroll cells index).length = cells.length := (unroll_perm cells index).length_eq

/-- Overwriting the oldest value drops it and appends the new one. -/
theorem unroll_set {cells : List α} {index : Nat} (h : index < cells.length) (v : α) :
    unroll (cells.set index v) ((index + 1) % cells.length) =
      (unroll cells index).tail ++ [v] := by
  obtain ⟨l, x, r, rfl, rfl⟩ : ∃ l x r, cells = l ++ x :: r ∧ l.length = index := by
    refine ⟨cells.take index, cells[index], cells.drop (index + 1), ?_, ?_⟩
    · rw [← List.drop_eq_getElem_cons h, List.take_append_drop]
    · exact List.length_take_of_le (by omega)
  rw [unroll_append, List.set_append_right _ _ (Nat.le_refl _), Nat.sub_self, List.set_cons_zero]
  cases r with
  | nil =>
    -- the last cell: the next one to be overwritten is the first
    simp [unroll_zero]
  | cons y r =>
    rw [Nat.mod_eq_of_lt (by simp)]
    have hl : l.length + 1 = (l ++ [v]).length := by simp
    rw [List.append_cons, hl, unroll_append]
    simp

/-! ## The window -/

/-- A window of fixed length once `vs` have passed into it. -/
def slide (w vs : List α) : List α := (w ++ vs).drop vs.length

@[simp] theorem slide_nil (w : List α) : slide w [] = w := by simp [slide]

@[simp] theorem length_slide (w vs : List α) : (slide w vs).length = w.length := by simp [slide]

theorem slide_append (w xs ys : List α) : slide w (xs ++ ys) = slide (slide w xs) ys := by
  unfold slide
  rw [← List.append_assoc, List.length_append, ← List.drop_drop,
    List.drop_append_of_le_length (i := xs.length) (by simp)]

theorem slide_singleton {w : List α} (h : w ≠ []) (v : α) : slide w [v] = w.tail ++ [v] := by
  cases w with
  | nil => exact absurd rfl h
  | cons x w => simp [slide]

theorem slide_of_length_le {w vs : List α} (h : w.length ≤ vs.length) :
    slide w vs = vs.drop (vs.length - w.length) := by
  unfold slide
  rw [List.drop_append, List.drop_of_length_le h, List.nil_append]

/-! ## Positions -/

/-- The number of insertions before the one that overwrites cell `j` of a ring of `n` cells. -/
def ahead (n index j : Nat) : Nat := if index ≤ j then j - index else j + n - index

theorem ahead_lt {n index j : Nat} (hi : index < n) (hj : j < n) : ahead n index j < n := by
  unfold ahead
  split <;> omega

/-- The cell just written is the last to be overwritten. -/
theorem ahead_self {n index : Nat} (hi : index < n) :
    ahead n ((index + 1) % n) index = n - 1 := by
  unfold ahead
  by_cases h : index + 1 = n
  · subst h
    simp
  · rw [Nat.mod_eq_of_lt (by omega), if_neg (by omega)]
    omega

theorem ahead_succ {n index j : Nat} (hi : index < n) (hj : j < n) (hne : 0 < ahead n index j) :
    ahead n ((index + 1) % n) j + 1 = ahead n index j := by
  unfold ahead at hne ⊢
  by_cases h : index + 1 = n
  · subst h
    rw [Nat.mod_self, if_pos (Nat.zero_le _)]
    split at hne <;> split <;> omega
  · rw [Nat.mod_eq_of_lt (by omega)]
    split at hne <;> split <;> omega

end Lib.Ring
