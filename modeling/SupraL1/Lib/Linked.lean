import Mathlib.Logic.Basic

/-!
# Linked sequences

A list of items in which each one extends the one before it, from a start: blocks of a chain,
entries of a log. `ext i a` says that `a` may follow the point `i`, `info a` is the point that `a`
itself makes, and `tip i l` is where the list ends.
-/

set_option autoImplicit false

namespace Linked

variable {ι α : Type} (ext : ι → α → Prop) (info : α → ι)

/-- Every item of the list extends the point before it. -/
def From : ι → List α → Prop
  | _, [] => True
  | i, a :: l => ext i a ∧ From (info a) l

/-- The point after the list. -/
def tip : ι → List α → ι
  | i, [] => i
  | _, a :: l => tip (info a) l

variable {ext info}

@[simp] theorem from_nil (i : ι) : From ext info i [] := trivial

@[simp] theorem tip_nil (i : ι) : tip info i [] = i := rfl

theorem tip_append (i : ι) (l l' : List α) : tip info i (l ++ l') = tip info (tip info i l) l' := by
  induction l generalizing i with
  | nil => rfl
  | cons a l ih => exact ih _

@[simp] theorem tip_snoc (i : ι) (l : List α) (a : α) : tip info i (l ++ [a]) = info a := by
  rw [tip_append]; rfl

theorem from_append {i : ι} {l l' : List α} :
    From ext info i (l ++ l') ↔ From ext info i l ∧ From ext info (tip info i l) l' := by
  induction l generalizing i with
  | nil => simp [tip]
  | cons a l ih => simp only [List.cons_append, From, ih, tip, and_assoc]

theorem from_snoc {i : ι} {l : List α} {a : α} :
    From ext info i (l ++ [a]) ↔ From ext info i l ∧ ext (tip info i l) a := by
  rw [from_append]; simp [From]

section
variable {rank : ι → Nat} (hr : ∀ i a, ext i a → rank (info a) = rank i + 1)
include hr

/-- When an extension is one higher, the items of a linked list have consecutive ranks. -/
theorem ranks {i : ι} {l : List α} (h : From ext info i l) :
    l.map (fun a => rank (info a)) = List.range' (rank i + 1) l.length := by
  induction l generalizing i with
  | nil => rfl
  | cons a l ih =>
    rw [List.map_cons, List.length_cons, List.range'_succ, ih h.2, hr i a h.1]

theorem rank_tip {i : ι} {l : List α} (h : From ext info i l) :
    rank (tip info i l) = rank i + l.length := by
  induction l generalizing i with
  | nil => rfl
  | cons a l ih =>
    rw [tip, ih h.2, hr i a h.1, List.length_cons]; omega

theorem rank_lt {i : ι} {l : List α} (h : From ext info i l) {a : α} (ha : a ∈ l) :
    rank i < rank (info a) := by
  have hmem : rank (info a) ∈ l.map fun a => rank (info a) := List.mem_map_of_mem ha
  rw [ranks hr h, List.mem_range'_1] at hmem
  omega

theorem rank_le_tip {i : ι} {l : List α} (h : From ext info i l) {a : α} (ha : a ∈ l) :
    rank (info a) ≤ rank (tip info i l) := by
  have hmem : rank (info a) ∈ l.map fun a => rank (info a) := List.mem_map_of_mem ha
  rw [ranks hr h, List.mem_range'_1] at hmem
  rw [rank_tip hr h]
  omega

/-- In a linked list the item one above the start is the first. -/
theorem head_of_rank {i : ι} {l : List α} (h : From ext info i l) {a : α} (ha : a ∈ l)
    (hra : rank (info a) = rank i + 1) : ∃ l', l = a :: l' := by
  cases l with
  | nil => cases ha
  | cons b l =>
    rcases List.mem_cons.1 ha with rfl | ha
    · exact ⟨l, rfl⟩
    · have hlt := rank_lt hr h.2 ha
      rw [hr i b h.1] at hlt
      omega

/-- A linked list of items of another one with the same start is a prefix of it. -/
theorem isPrefix_of_subset {i : ι} {l l' : List α} (h : From ext info i l) (h' : From ext info i l')
    (hsub : ∀ a ∈ l, a ∈ l') : l <+: l' := by
  induction l generalizing i l' with
  | nil => exact List.nil_prefix
  | cons a l ih =>
    obtain ⟨l'', rfl⟩ := head_of_rank hr h' (hsub a List.mem_cons_self) (hr i a h.1)
    refine List.cons_prefix_cons.2 ⟨rfl, ih h.2 h'.2 fun b hb => ?_⟩
    rcases List.mem_cons.1 (hsub b (List.mem_cons_of_mem a hb)) with rfl | hb'
    · exact absurd (rank_lt hr h.2 hb) (Nat.lt_irrefl _)
    · exact hb'

end

end Linked
