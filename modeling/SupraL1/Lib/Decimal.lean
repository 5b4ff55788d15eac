import Mathlib.Algebra.GroupWithZero.Nat
import Mathlib.Data.List.Basic
import Mathlib.Order.Monotone.Basic

/-!
# Decimal numerals

The decimal digits of a number contain no other character, so a numeral that follows a separator is
determined by the whole text. Read in a larger base, decimal numerals keep their order (`reread`).
-/

set_option autoImplicit false

namespace Decimal

/-! ## Digits -/

theorem notMem_toDigits {c : Char} (hc : c.isDigit = false) (n : Nat) : c ∉ Nat.toDigits 10 n := by
  intro hmem
  have hdigit := Nat.isDigit_of_mem_toDigits (by decide) (by decide) hmem
  exact Bool.false_ne_true (hc.symm.trans hdigit)

theorem append_cons_inj {u v x y : List Char} {sep : Char} (hu : sep ∉ u) (hv : sep ∉ v)
    (h : u ++ sep :: x = v ++ sep :: y) : u = v ∧ x = y := by
  have htake {w z : List Char} (hw : sep ∉ w) : (w ++ sep :: z).takeWhile (· != sep) = w := by
    have hall : ∀ c ∈ w, (c != sep) = true := by
      intro c hc
      rw [bne_iff_ne]
      rintro rfl
      exact hw hc
    rw [List.takeWhile_append_of_pos hall]
    simp
  have huv : u = v := by rw [← htake (z := x) hu, h, htake hv]
  subst huv
  exact ⟨rfl, (List.cons.inj (List.append_cancel_left h)).2⟩

/-- Two texts that end in a separator and a numeral. -/
theorem append_numeral_inj {x y : String} {m n : Nat} {sep : Char}
    (hsep : sep.isDigit = false)
    (h : x ++ String.singleton sep ++ toString m = y ++ String.singleton sep ++ toString n) :
    x = y ∧ m = n := by
  have hlist := congrArg (fun s => s.toList.reverse) h
  simp only [String.toList_append, String.toList_singleton, Nat.toString_eq_ofList_toDigits,
    String.toList_ofList, List.reverse_append, List.append_assoc, List.reverse_cons,
    List.singleton_append] at hlist
  have hdigits (k : Nat) : sep ∉ (Nat.toDigits 10 k).reverse := fun hmem =>
    notMem_toDigits hsep k (List.mem_reverse.1 hmem)
  -- read from the end, the first separator is the one before the numeral
  obtain ⟨hnumeral, htext⟩ := append_cons_inj (hdigits m) (hdigits n) hlist
  refine ⟨String.toList_inj.1 (List.reverse_injective htext), ?_⟩
  rw [← Nat.ofDigitChars_ten_toDigits (n := m), List.reverse_injective hnumeral,
    Nat.ofDigitChars_ten_toDigits]

/-! ## Another base -/

/-- The decimal numeral of `n`, read in the base `b`. -/
def reread (b n : Nat) : Nat := Nat.ofDigitChars b (Nat.toDigits 10 n) 0

theorem reread_eq (b n : Nat) :
    reread b n = if n < 10 then n else b * reread b (n / 10) + n % 10 := by
  unfold reread
  rw [Nat.toDigits_eq_if (by decide)]
  split
  · rename_i hlt
    rw [Nat.ofDigitChars_cons_digitChar_of_lt_ten hlt, Nat.ofDigitChars_nil, Nat.mul_zero,
      Nat.zero_add]
  · rw [Nat.ofDigitChars_append, Nat.ofDigitChars_cons_digitChar_of_lt_ten (by omega),
      Nat.ofDigitChars_nil]

theorem le_reread {b : Nat} (hb : 10 ≤ b) (n : Nat) : n ≤ reread b n := by
  induction n using Nat.strongRecOn with
  | ind n ih =>
    rw [reread_eq]
    split
    · exact Nat.le_refl n
    · have hih := ih (n / 10) (by omega)
      have hmul : 10 * (n / 10) ≤ b * reread b (n / 10) := Nat.mul_le_mul hb hih
      omega

/-- **Decimal numerals keep their order in a larger base.** -/
theorem reread_strictMono {b : Nat} (hb : 10 ≤ b) : StrictMono (reread b) := by
  intro m n hlt
  induction n using Nat.strongRecOn generalizing m with
  | ind n ih =>
    rw [reread_eq b m, reread_eq b n]
    by_cases hn : n < 10
    · rw [if_pos hn, if_pos (by omega)]
      exact hlt
    · rw [if_neg hn]
      by_cases hm : m < 10
      · -- one digit against several
        rw [if_pos hm]
        have hpos : 1 ≤ reread b (n / 10) := Nat.le_trans (by omega) (le_reread hb (n / 10))
        have hmul : b * 1 ≤ b * reread b (n / 10) := Nat.mul_le_mul_left b hpos
        omega
      · rw [if_neg hm]
        by_cases hhead : m / 10 = n / 10
        · rw [hhead]
          omega
        · have hih := ih (n / 10) (by omega) (show m / 10 < n / 10 by omega)
          have hmul : b * (reread b (m / 10) + 1) ≤ b * reread b (n / 10) :=
            Nat.mul_le_mul_left b hih
          rw [Nat.mul_add, Nat.mul_one] at hmul
          omega

/-- A numeral of at most `e` digits stays below the power of the base. -/
theorem reread_lt {b : Nat} (hb : 10 ≤ b) {e n : Nat} (h : n < 10 ^ e) : reread b n < b ^ e := by
  induction e generalizing n with
  | zero =>
    rw [Nat.pow_zero] at h ⊢
    rw [reread_eq, if_pos (by omega)]
    exact h
  | succ e ih =>
    rw [Nat.pow_succ] at h ⊢
    rw [reread_eq]
    have hpos : 1 ≤ b ^ e := Nat.pow_pos (by omega)
    split
    · have hmul : 1 * b ≤ b ^ e * b := Nat.mul_le_mul_right b hpos
      omega
    · have hih := ih (n := n / 10) (by omega)
      have hmul : b * (reread b (n / 10) + 1) ≤ b * b ^ e := Nat.mul_le_mul_left b hih
      rw [Nat.mul_add, Nat.mul_one, Nat.mul_comm b (b ^ e)] at hmul
      omega

end Decimal
