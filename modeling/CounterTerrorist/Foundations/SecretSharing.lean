import Mathlib.LinearAlgebra.Lagrange

/-!
# Sharing a secret by a polynomial

A secret is the constant term of a polynomial, and a share is its value at a point other than zero.
The coefficients are a list here, constant term first, and `horner` evaluates as programs do, from
the last one down.

* *Recovery.* The value at zero of a polynomial with fewer coefficients than there are points is a
  sum over the points, with weights that depend on the points only (`sum_eval_mul_weight`).
* *Hiding.* For any points but zero there is a list of coefficients, one more than there are points,
  that begins with one and vanishes at all the points (`exists_vanishing`). Adding a multiple of it
  changes the secret and none of the shares.
-/

namespace SecretSharing

open Polynomial List

variable {F : Type*} [Field F]

/-- The value at `x` of the polynomial with the given coefficients. -/
def horner (coeffs : List F) (x : F) : F := coeffs.foldr (fun c y ↦ y * x + c) 0

@[simp] theorem horner_cons (c : F) (coeffs : List F) (x : F) :
    horner (c :: coeffs) x = horner coeffs x * x + c := rfl

/-- The polynomial itself. -/
noncomputable def ofCoeffs : List F → F[X]
  | [] => 0
  | c :: coeffs => ofCoeffs coeffs * X + C c

/-- The value of the polynomial. -/
theorem eval_ofCoeffs (coeffs : List F) (x : F) : (ofCoeffs coeffs).eval x = horner coeffs x := by
  induction coeffs with
  | nil => exact eval_zero
  | cons c coeffs ih => rw [ofCoeffs, eval_add, eval_mul, eval_X, eval_C, ih, horner_cons]

theorem coeff_ofCoeffs (coeffs : List F) (n : ℕ) : (ofCoeffs coeffs).coeff n = coeffs.getD n 0 := by
  induction coeffs generalizing n with
  | nil => exact coeff_zero n
  | cons c coeffs ih =>
    rw [ofCoeffs]
    cases n with
    | zero => simp
    | succ n => rw [coeff_add, coeff_mul_X, ih, coeff_C_succ, add_zero, getD_cons_succ]

/-- The degree is below the number of coefficients. -/
theorem degree_ofCoeffs_lt (coeffs : List F) : (ofCoeffs coeffs).degree < coeffs.length := by
  refine (degree_lt_iff_coeff_zero _ _).2 fun n hn ↦ ?_
  rw [coeff_ofCoeffs, getD_eq_getElem?_getD, getElem?_eq_none hn, Option.getD_none]

/-! ### Recovery -/

variable [DecidableEq F]

/-- What the value at the point `x` counts for at zero, among the points `xs`. -/
def weight (xs : List F) (x : F) : F := ((xs.filter (· ≠ x)).map fun y ↦ y / (y - x)).prod

/-- The weights are values of Lagrange's basis. -/
theorem eval_zero_basis {xs : List F} (hxs : xs.Nodup) (x : F) :
    (Lagrange.basis xs.toFinset id x).eval 0 = weight xs x := by
  have herase : xs.toFinset.erase x = (xs.filter (· ≠ x)).toFinset := by
    ext y
    simp [and_comm]
  rw [Lagrange.basis, eval_prod, herase, prod_toFinset _ (hxs.filter _)]
  refine congrArg List.prod (map_congr_left fun y _ ↦ ?_)
  rw [Lagrange.basisDivisor, eval_mul, eval_C, eval_sub, eval_X, eval_C, id, id, zero_sub,
    ← neg_sub y x, inv_neg, neg_mul_neg, div_eq_inv_mul]

/-- **Enough values determine the one at zero.** -/
theorem sum_eval_mul_weight {coeffs xs : List F} (hxs : xs.Nodup)
    (hlen : coeffs.length ≤ xs.length) :
    (xs.map fun x ↦ horner coeffs x * weight xs x).sum = horner coeffs 0 := by
  have hcard : xs.toFinset.card = xs.length := toFinset_card_of_nodup hxs
  have hdegree : (ofCoeffs coeffs).degree < xs.toFinset.card := by
    rw [hcard]
    exact (degree_ofCoeffs_lt coeffs).trans_le (Nat.cast_le.2 hlen)
  have hinterpolate := Lagrange.eq_interpolate (v := id) (Set.injOn_id _) hdegree
  rw [← eval_ofCoeffs, hinterpolate, Lagrange.interpolate_apply, eval_finsetSum, sum_toFinset _ hxs]
  refine congrArg List.sum (map_congr_left fun x _ ↦ ?_)
  rw [eval_mul, eval_C, eval_zero_basis hxs, id, eval_ofCoeffs]

/-! ### Hiding -/

omit [DecidableEq F] in
theorem horner_map_range (f : ℕ → F) (k : ℕ) (x : F) :
    horner ((List.range k).map f) x = ∑ e ∈ Finset.range k, f e * x ^ e := by
  induction k generalizing f with
  | zero => rfl
  | succ k ih =>
    rw [range_succ_eq_map, map_cons, List.map_map, horner_cons, ih,
      Finset.sum_range_succ', Finset.sum_mul, pow_zero, mul_one]
    refine congrArg (· + f 0) (Finset.sum_congr rfl fun e _ ↦ ?_)
    rw [Function.comp_apply, pow_succ, mul_assoc]

omit [DecidableEq F] in
/-- **Something that changes the secret and no share.** For points other than zero there are
coefficients, one more than there are points, that begin with one and vanish at the points. -/
theorem exists_vanishing (points : Finset F) (hpoints : 0 ∉ points) : ∃ f : ℕ → F, f 0 = 1 ∧
      ∀ x ∈ points, horner ((List.range (points.card + 1)).map f) x = 0 := by
  -- the product of `1 - X / y` over the points `y`
  let q : F[X] := ∏ y ∈ points, (1 - C y⁻¹ * X)
  have hdegree : q.natDegree < points.card + 1 := by
    refine Nat.lt_succ_of_le ((natDegree_prod_le _ _).trans ?_)
    refine (Finset.sum_le_card_nsmul _ _ 1 fun y _ ↦ ?_).trans (by simp)
    compute_degree
  refine ⟨q.coeff, ?_, fun x hx ↦ ?_⟩
  · rw [coeff_zero_eq_eval_zero, eval_prod]
    simp
  · have hne : x ≠ 0 := fun h ↦ hpoints (h ▸ hx)
    rw [horner_map_range, ← eval_eq_sum_range' hdegree, eval_prod]
    exact Finset.prod_eq_zero hx (by simp [hne])

end SecretSharing
