/-
The best fit to weighted data.  What a fit leaves is at right angles to the
samples of every polynomial of its degree, so any step away from it adds to the
misfit.
-/
import PointerMotion.Proofs.Basis

open Polynomial

namespace PointerMotion

namespace Fit

variable {times data weights : List ℝ} {degree : ℕ}

/-- The sum of the squared weighted distances of a polynomial from data. -/
noncomputable def misfit (times data weights : List ℝ) (P : ℝ[X]) : ℝ :=
  ∑ i : Fin times.length,
    weights.getD i 0 ^ 2 * (data.getD i 0 - P.eval (times.get i)) ^ 2

/-- A polynomial of some degree that is closer to the data than every other
one. -/
structure IsBestFit (times data weights : List ℝ) (degree : ℕ)
    (P : ℝ[X]) : Prop where
  degree_le : P.natDegree ≤ degree
  misfit_lt : ∀ R : ℝ[X], R.natDegree ≤ degree → R ≠ P →
    misfit times data weights P < misfit times data weights R

/-- The misfit is the squared length of what a polynomial leaves of the weighted
data. -/
theorem misfit_eq_norm (hw : weights.length = times.length)
    (hd : data.length = times.length) (P : ℝ[X]) :
    misfit times data weights P =
      ‖signal times.length (List.zipWith (· * ·) weights data)
      - sampling times weights P‖ ^ 2 := by
  rw [misfit, EuclideanSpace.real_norm_sq_eq]
  refine Finset.sum_congr rfl fun i _ => ?_
  have hentry : (List.zipWith (· * ·) weights data).getD i 0
      = weights.getD i 0 * data.getD i 0 := by
    simp [hw, hd]
  rw [PiLp.sub_apply, signal_apply, hentry, sampling_apply]
  ring

/-- The polynomial of a fit is the one best of its degree. -/
theorem isBestFit_of_solve? {fit : Solution ℝ}
    (hw : weights.length = times.length) (hd : data.length = times.length)
    (hsolved : solve? times data weights (degree + 1) = some fit) :
    fit.coefficients.length = degree + 1
      ∧ IsBestFit times data weights degree (polynomial fit.coefficients) := by
  obtain ⟨basis, hfound, rfl⟩ := Option.map_eq_some_iff.mp hsolved
  obtain ⟨hsound, hreached⟩ := basis?_spec hw hfound
  set data' := List.zipWith (· * ·) weights data
  have hweighted : data'.length = times.length := by simp [data', hw, hd]
  obtain ⟨hsize, hfree⟩ := project_spec hsound hweighted
  set P := polynomial (project basis data' (degree + 1))
  have hlow : P ∈ degreeLT ℝ (degree + 1) := polynomial_mem_degreeLT hsize.le
  refine ⟨hsize, mem_degreeLT_succ.mp hlow, fun R hR hother => ?_⟩
  have hinside : P - R ∈ reach basis :=
    hreached (sub_mem hlow (mem_degreeLT_succ.mpr hR))
  have hmoved : sampling times weights (P - R) ≠ 0 := fun hvanishes =>
    hother (sub_eq_zero.mp
        (hsound.eq_zero_of_sampling_eq_zero hinside hvanishes)).symm
  -- what `P` leaves is at right angles to the step from `R` to `P`
  have hright := inner_sampling_of_mem_reach hsound hfree hinside
  calc misfit times data weights P
      = ‖signal times.length data' - sampling times weights P‖ ^ 2 :=
        misfit_eq_norm hw hd P
    _ < ‖sampling times weights (P - R)‖ ^ 2
        + ‖signal times.length data' - sampling times weights P‖ ^ 2 :=
        lt_add_of_pos_left _ (pow_pos (norm_pos_iff.mpr hmoved) 2)
    _ = ‖signal times.length data' - sampling times weights R‖ ^ 2 := by
        rw [sq, sq, ← norm_add_sq_eq_norm_sq_add_norm_sq_real hright,
          ← sq, map_sub]
        congr 2
        abel
    _ = misfit times data weights R := (misfit_eq_norm hw hd R).symm

/-- A polynomial of the degree that misses nothing is the best fit. -/
theorem IsBestFit.eq_of_misfit_eq_zero {P R : ℝ[X]}
    (h : IsBestFit times data weights degree P) (hlow : R.natDegree ≤ degree)
    (hexact : misfit times data weights R = 0) : P = R := by
  by_contra hother
  have hworse := h.misfit_lt R hlow (Ne.symm hother)
  have hnonneg : 0 ≤ misfit times data weights P :=
    Finset.sum_nonneg fun i _ => mul_nonneg (sq_nonneg _) (sq_nonneg _)
  exact absurd (hexact ▸ hworse) (not_lt.mpr hnonneg)

/-- The misfit is the same when time is measured from elsewhere in other
units. -/
theorem misfit_comp_linear (a b : ℝ) (P : ℝ[X]) :
    misfit times data weights (P.comp (C a * X + C b))
      = misfit (times.map fun t => a * t + b) data weights P := by
  refine Fintype.sum_equiv (finCongr (by simp)) _ _ fun i => ?_
  simp

/-- A best fit over other units of time is one over the event times. -/
theorem IsBestFit.comp_linear {a b : ℝ} (ha : a ≠ 0) {P : ℝ[X]}
    (h : IsBestFit (times.map fun t => a * t + b) data weights degree P) :
    IsBestFit times data weights degree (P.comp (C a * X + C b)) := by
  have hkeeps : ∀ {a b : ℝ}, a ≠ 0 → ∀ R : ℝ[X],
      (R.comp (C a * X + C b)).natDegree = R.natDegree := by
    intro a b ha R
    rw [natDegree_comp, natDegree_linear ha, mul_one]
  refine ⟨(hkeeps ha P).trans_le h.degree_le, fun R hR hother => ?_⟩
  have hback : (C a⁻¹ * X + C (-b / a)).comp (C a * X + C b) = (X : ℝ[X]) := by
    refine Polynomial.funext fun t => ?_
    simp only [eval_comp, eval_add, eval_mul, eval_C, eval_X]
    field_simp
    ring
  set R' := R.comp (C a⁻¹ * X + C (-b / a))
  have hthere : R'.comp (C a * X + C b) = R := by rw [comp_assoc, hback, comp_X]
  have hlow : R'.natDegree ≤ degree := (hkeeps (inv_ne_zero ha) R).trans_le hR
  have hapart : R' ≠ P := by
    rintro hsame
    rw [hsame] at hthere
    exact hother hthere.symm
  rw [misfit_comp_linear, ← hthere, misfit_comp_linear]
  exact h.misfit_lt R' hlow hapart

end Fit

end PointerMotion
