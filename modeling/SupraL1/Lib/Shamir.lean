import Mathlib.LinearAlgebra.Lagrange

/-!
# Shares of a polynomial

A secret is the value at zero of a polynomial, and its shares are the values at other points, taken
in any module over the field. `combine` interpolates shares at zero. As many shares as the polynomial
has coefficients combine to the secret, whichever they are (`combine_eval`), and what is linear may be
done to the shares or to what they combine to (`combine_map`). So shares that are themselves shared
are shares of the old secret under the new polynomial (`eval_combine`).
-/

namespace Shamir

open Polynomial

variable {F M N : Type*} [Field F] [DecidableEq F] [AddCommGroup M] [Module F M] [AddCommGroup N]
  [Module F N]

/-- The coefficient of the share at `x` among those at the points `xs`. -/
def weight (xs : List F) (x : F) : F := ((xs.filter (· ≠ x)).map fun y => (0 - y) / (x - y)).prod

/-- The value at zero that shares at their points give. -/
def combine (shares : List (F × M)) : M :=
  (shares.map fun s => weight (shares.map Prod.fst) s.1 • s.2).sum

theorem weight_eq_eval_basis {xs : List F} (hxs : xs.Nodup) (x : F) :
    weight xs x = (Lagrange.basis xs.toFinset id x).eval 0 := by
  have hothers : xs.toFinset.erase x = (xs.filter (· ≠ x)).toFinset := by
    rw [List.toFinset_filter, ← Finset.filter_ne']
    simp
  rw [Lagrange.basis, hothers, eval_prod, List.prod_toFinset _ (hxs.filter _), weight]
  refine congrArg List.prod (List.map_congr_left fun y _ => ?_)
  rw [Lagrange.basisDivisor, eval_mul, eval_C, eval_sub, eval_X, eval_C, div_eq_inv_mul]
  rfl

/-- **Reconstruction**: the shares at distinct points, as many as the polynomial has coefficients. -/
theorem combine_eval {f : F[X]} {xs : List F} (hxs : xs.Nodup) (hf : f.degree < xs.length) (m : M) :
    combine (xs.map fun x => (x, f.eval x • m)) = f.eval 0 • m := by
  have hcard : f.degree < xs.toFinset.card := by rwa [List.toFinset_card_of_nodup hxs]
  have hzero : f.eval 0 = (xs.map fun x => weight xs x * f.eval x).sum := by
    have hf' := Lagrange.eq_interpolate (Set.injOn_id (xs.toFinset : Set F)) hcard
    rw [← List.sum_toFinset _ hxs]
    conv_lhs => rw [hf', Lagrange.interpolate_apply, eval_finsetSum]
    refine Finset.sum_congr rfl fun x _ => ?_
    rw [eval_mul, eval_C, weight_eq_eval_basis hxs, mul_comm]
    rfl
  have hpoints : (xs.map fun x => (x, f.eval x • m)).map Prod.fst = xs := by
    rw [List.map_map]
    exact List.map_id xs
  rw [combine, hpoints, List.map_map, hzero, List.sum_smul, List.map_map]
  refine congrArg List.sum (List.map_congr_left fun x _ => ?_)
  exact smul_smul _ _ m

theorem combine_map (φ : M →ₗ[F] N) (shares : List (F × M)) :
    combine (shares.map fun s => (s.1, φ s.2)) = φ (combine shares) := by
  have hpoints : (shares.map fun s => (s.1, φ s.2)).map Prod.fst = shares.map Prod.fst := by
    rw [List.map_map]
    rfl
  rw [combine, combine, hpoints, map_list_sum, List.map_map, List.map_map]
  refine congrArg List.sum (List.map_congr_left fun s _ => ?_)
  exact (map_smul φ _ _).symm

theorem combine_mem {S : Submodule F M} {shares : List (F × M)} (h : ∀ s ∈ shares, s.2 ∈ S) :
    combine shares ∈ S := by
  refine list_sum_mem fun m hm => ?_
  obtain ⟨s, hs, rfl⟩ := List.mem_map.1 hm
  exact S.smul_mem _ (h s hs)

/-- **Resharing**: polynomials that share the shares of `f` combine to one with the secret of `f`. -/
theorem eval_combine {f : F[X]} {shares : List (F × F[X])} (hnodup : (shares.map Prod.fst).Nodup)
    (hf : f.degree < shares.length) (hshares : ∀ s ∈ shares, s.2.eval 0 = f.eval s.1) :
    (combine shares).eval 0 = f.eval 0 := by
  have hvalues : (shares.map fun s => (s.1, leval (0 : F) s.2)) =
      (shares.map Prod.fst).map fun x => (x, f.eval x • (1 : F)) := by
    rw [List.map_map]
    refine List.map_congr_left fun s hs => ?_
    rw [leval_apply, hshares s hs, Function.comp_apply, smul_eq_mul, mul_one]
  have hcombine : leval (0 : F) (combine shares) = f.eval 0 • (1 : F) := by
    rw [← combine_map, hvalues]
    exact combine_eval hnodup (by rwa [List.length_map]) 1
  rwa [leval_apply, smul_eq_mul, mul_one] at hcombine

end Shamir
