/-
The definitions of a fit over exact numbers: its sums are inner products, and a
list of coefficients is a polynomial.
-/
import PointerMotion.Regression
import Mathlib.Analysis.InnerProductSpace.PiL2
import Mathlib.RingTheory.Polynomial.Basic

open Polynomial

namespace PointerMotion

/-- Exact numbers as scalars. -/
noncomputable instance : Scalar ℝ where
  abs x := |x|
  sqrt := Real.sqrt
  copySign magnitude sign := if sign < 0 then -|magnitude| else |magnitude|
  less x y := decide (x < y)
  same x y := decide (x = y)
  ofInt n := n
  holdsInt _ := true
  truncate x := .ok (if x < 0 then ⌈x⌉ else ⌊x⌋)

namespace Fit

theorem sum_eq (xs : List ℝ) : sum xs = xs.sum := by
  simp only [sum, List.sum_eq_foldl]
  norm_num

theorem power_eq (t : ℝ) (k : ℕ) : power t k = t ^ k := by
  induction k with
  | zero => norm_num [power]
  | succ k ih => simp only [power, ih, pow_succ]

theorem getD_addMultiple {xs ys : List ℝ} (hsized : xs.length = ys.length)
    (a : ℝ) (i : ℕ) :
    (addMultiple xs a ys).getD i 0 = xs.getD i 0 + a * ys.getD i 0 := by
  by_cases h : i < xs.length
  · have h' : i < ys.length := hsized ▸ h
    simp [addMultiple, h, h']
  · have h' : ¬ i < ys.length := hsized ▸ h
    simp [addMultiple, h, h']

theorem getD_map_div (xs : List ℝ) (divisor : ℝ) (i : ℕ) :
    (xs.map (· / divisor)).getD i 0 = xs.getD i 0 / divisor := by
  by_cases h : i < xs.length <;> simp [h]

/-- The polynomial with given coefficients, constant term first. -/
noncomputable def polynomial : List ℝ → ℝ[X]
  | [] => 0
  | c :: rest => C c + X * polynomial rest

@[simp] theorem coeff_polynomial (cs : List ℝ) (k : ℕ) :
    (polynomial cs).coeff k = cs.getD k 0 := by
  induction cs generalizing k with
  | nil => simp [polynomial]
  | cons c rest ih => cases k <;> simp [polynomial, ih, coeff_C]

theorem mem_degreeLT_succ {degree : ℕ} {P : ℝ[X]} :
    P ∈ degreeLT ℝ (degree + 1) ↔ P.natDegree ≤ degree := by
  rw [degreeLT_succ_eq_degreeLE, mem_degreeLE, natDegree_le_iff_degree_le]

theorem polynomial_mem_degreeLT {cs : List ℝ} {count : ℕ}
    (hsize : cs.length ≤ count) :
    polynomial cs ∈ degreeLT ℝ count := by
  rw [mem_degreeLT, degree_lt_iff_coeff_zero]
  intro k hk
  simp [hsize.trans hk]

theorem polynomial_eq_sum {cs : List ℝ} {count : ℕ}
    (hsize : cs.length = count) :
    polynomial cs = ∑ k : Fin count, cs.getD k 0 • X ^ (k : ℕ) := by
  ext n
  simp only [coeff_polynomial, finsetSum_coeff, coeff_smul, coeff_X_pow,
    smul_eq_mul, mul_ite, mul_one, mul_zero]
  rw [Fin.sum_univ_eq_sum_range fun k => if n = k then cs.getD k 0 else 0,
    Finset.sum_ite_eq]
  split
  · rfl
  · rename_i houtside
    have hpast : cs.length ≤ n :=
      hsize ▸ not_lt.mp (mt Finset.mem_range.mpr houtside)
    simp [hpast]

theorem polynomial_addMultiple {xs ys : List ℝ}
    (hsized : xs.length = ys.length) (a : ℝ) :
    polynomial (addMultiple xs a ys) = polynomial xs + a • polynomial ys := by
  ext k
  simp only [coeff_polynomial, getD_addMultiple hsized, coeff_add,
    coeff_smul, smul_eq_mul]

theorem polynomial_map_div (xs : List ℝ) (divisor : ℝ) :
    polynomial (xs.map (· / divisor)) = divisor⁻¹ • polynomial xs := by
  ext k
  simp only [coeff_polynomial, getD_map_div, coeff_smul, smul_eq_mul]
  ring

/-- Numbers by their index as a vector. -/
noncomputable def vectorOf {n : ℕ} (f : Fin n → ℝ) : EuclideanSpace ℝ (Fin n) :=
  WithLp.toLp 2 f

@[simp] theorem vectorOf_apply {n : ℕ} (f : Fin n → ℝ) (i : Fin n) :
    vectorOf f i = f i :=
  rfl

/-- A list of `n` numbers as a vector. -/
noncomputable def signal (n : ℕ) (xs : List ℝ) : EuclideanSpace ℝ (Fin n) :=
  vectorOf fun i => xs.getD i 0

@[simp] theorem signal_apply (n : ℕ) (xs : List ℝ) (i : Fin n) :
    signal n xs i = xs.getD i 0 :=
  rfl

theorem signal_addMultiple (n : ℕ) {xs ys : List ℝ}
    (hsized : xs.length = ys.length) (a : ℝ) :
    signal n (addMultiple xs a ys) = signal n xs + a • signal n ys := by
  ext i
  simp only [signal_apply, getD_addMultiple hsized, PiLp.add_apply,
    PiLp.smul_apply, smul_eq_mul]

theorem signal_map_div (n : ℕ) (xs : List ℝ) (divisor : ℝ) :
    signal n (xs.map (· / divisor)) = divisor⁻¹ • signal n xs := by
  ext i
  simp only [signal_apply, getD_map_div, PiLp.smul_apply, smul_eq_mul]
  ring

theorem dot_eq_inner {n : ℕ} {xs ys : List ℝ} (hx : xs.length = n)
    (hy : ys.length = n) :
    dot xs ys = inner ℝ (signal n xs) (signal n ys) := by
  have hterms : List.zipWith (· * ·) xs ys
      = List.ofFn fun i : Fin n => xs.getD i 0 * ys.getD i 0 := by
    refine List.ext_getElem (by simp [hx, hy]) fun i h _ => ?_
    have hboth : i < xs.length ∧ i < ys.length := by simpa using h
    simp [hboth]
  calc dot xs ys = (List.zipWith (· * ·) xs ys).sum := sum_eq _
    _ = ∑ i : Fin n, xs.getD i 0 * ys.getD i 0 := by rw [hterms, List.sum_ofFn]
    _ = inner ℝ (signal n xs) (signal n ys) := by
      simp [PiLp.inner_apply, mul_comm]

theorem norm_eq {n : ℕ} {xs : List ℝ} (hx : xs.length = n) :
    norm xs = ‖signal n xs‖ := by
  rw [norm_eq_sqrt_real_inner, ← dot_eq_inner hx hx]
  rfl

end Fit

end PointerMotion
