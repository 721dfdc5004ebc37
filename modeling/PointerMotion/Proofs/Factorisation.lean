/-
Fits by an orthogonal factorisation.  The basis of a fit is the orthonormal
columns up to sign, and its coefficients solve the triangular system.
-/
import PointerMotion.Proofs.Basis
import Mathlib.Data.Matrix.Mul

open Polynomial Matrix

namespace PointerMotion

namespace Fit

variable {times weights data : List ℝ} {count : ℕ}

/-- The weighted powers of the sample times. -/
def design (times weights : List ℝ) (count : ℕ) :
    Matrix (Fin times.length) (Fin count) ℝ :=
  .of fun i k => weights.getD i 0 * times.get i ^ (k : ℕ)

/-- A factorisation of a matrix into orthonormal columns and an upper
triangle. -/
structure IsFactorisation (A Q : Matrix (Fin times.length) (Fin count) ℝ)
    (R : Matrix (Fin count) (Fin count) ℝ) : Prop where
  product : A = Q * R
  orthonormal : Qᵀ * Q = 1
  triangular : ∀ i j, j < i → R i j = 0

noncomputable def columnVector (Q : Matrix (Fin times.length) (Fin count) ℝ)
    (k : Fin count) :
    EuclideanSpace ℝ (Fin times.length) :=
  vectorOf fun i => Q i k

theorem mem_take_finRange {k : ℕ} {j : Fin count} :
    j ∈ (List.finRange count).take k ↔ (j : ℕ) < k := by
  rw [List.mem_take_iff_getElem]
  constructor
  · rintro ⟨i, hi, rfl⟩
    simpa using (lt_min_iff.mp hi).1
  · intro hbefore
    exact ⟨j, by simpa using hbefore, by simp⟩

/-- The columns before some place, in order. -/
noncomputable def columnsBefore (Q : Matrix (Fin times.length) (Fin count) ℝ)
    (k : ℕ) :
    List (EuclideanSpace ℝ (Fin times.length)) :=
  ((List.finRange count).take k).map (columnVector Q)

theorem columnsBefore_succ (Q : Matrix (Fin times.length) (Fin count) ℝ)
    (k : Fin count) :
    columnsBefore Q (k + 1) = columnsBefore Q k ++ [columnVector Q k] := by
  simp [columnsBefore, List.take_add_one]

namespace IsFactorisation

variable {Q : Matrix (Fin times.length) (Fin count) ℝ}
    {R : Matrix (Fin count) (Fin count) ℝ}

theorem inner_columnVector
    (hf : IsFactorisation (design times weights count) Q R) (j k : Fin count) :
    inner ℝ (columnVector Q j) (columnVector Q k) = if j = k then 1 else 0 := by
  have hentry := congrFun (congrFun hf.orthonormal j) k
  rw [Matrix.mul_apply, Matrix.one_apply] at hentry
  rw [← hentry, PiLp.inner_apply]
  simp [columnVector, mul_comm]

theorem norm_columnVector
    (hf : IsFactorisation (design times weights count) Q R) (k : Fin count) :
    ‖columnVector Q k‖ = 1 := by
  rw [norm_eq_sqrt_real_inner, hf.inner_columnVector, if_pos rfl, Real.sqrt_one]

/-- A sampled power is the combination of the columns that the triangle
tells. -/
theorem sampling_X_pow (hf : IsFactorisation (design times weights count) Q R)
    (k : Fin count) :
    sampling times weights (X ^ (k : ℕ)) = ∑ j, R j k • columnVector Q j := by
  ext i
  have hentry := congrFun (congrFun hf.product i) k
  rw [Matrix.mul_apply] at hentry
  have hvalue : sampling times weights (X ^ (k : ℕ)) i =
      design times weights count i k := by
    simp [sampling_apply, design]
  rw [hvalue, hentry]
  simp [columnVector, mul_comm]

theorem inner_sampling_X_pow
    (hf : IsFactorisation (design times weights count) Q R) (j k : Fin count) :
    inner ℝ (columnVector Q j) (sampling times weights (X ^ (k : ℕ))) =
      R j k := by
  rw [hf.sampling_X_pow, inner_sum, Finset.sum_eq_single j]
  · rw [real_inner_smul_right, hf.inner_columnVector, if_pos rfl, mul_one]
  · intro i _ hapart
    rw [real_inner_smul_right, hf.inner_columnVector,
      if_neg hapart.symm, mul_zero]
  · simp

theorem isOrthonormal_columnsBefore
    (hf : IsFactorisation (design times weights count) Q R) (k : ℕ) :
    IsOrthonormal (columnsBefore Q k) where
  unit u hu := by
    obtain ⟨j, -, rfl⟩ := List.mem_map.mp hu
    exact hf.norm_columnVector j
  orthogonal := by
    refine List.Pairwise.map _ ?_
      ((List.nodup_finRange count).sublist (List.take_sublist k _))
    intro i j hapart
    rw [hf.inner_columnVector, if_neg hapart]

variable {basis : List (Column ℝ)}

/-- What is left of a power lies along its column, as far as the diagonal
says. -/
theorem vector_leftover (hf : IsFactorisation (design times weights count) Q R)
    (hsized : weights.length = times.length)
    (h : IsBasis times weights count basis) (k : Fin count)
    (hsame : SameLines (basis.map (Column.vector times)) (columnsBefore Q k)) :
    (leftover basis (monomial times weights count k)).vector times
      = R k k • columnVector Q k := by
  have hc := Column.isSampled_monomial hsized k.isLt
  calc (leftover basis (monomial times weights count k)).vector times
      = rejection (basis.map (Column.vector times))
          ((monomial times weights count k).vector times) :=
            vector_foldl_reject h.sampled hc
    _ = rejection (columnsBefore Q k) (∑ j, R j k • columnVector Q j) := by
        rw [hsame.rejection_eq, hc.vector_eq, Column.poly_monomial k.isLt,
          hf.sampling_X_pow]
    _ = ∑ j, R j k • rejection (columnsBefore Q k) (columnVector Q j) := by
        simp only [map_sum, map_smul]
    _ = R k k • rejection (columnsBefore Q k) (columnVector Q k) := by
        refine Finset.sum_eq_single k (fun j _ hapart => ?_) (by simp)
        rcases lt_or_gt_of_ne hapart with hbefore | hafter
        · have htaken : columnVector Q j ∈ columnsBefore Q k :=
            List.mem_map_of_mem (mem_take_finRange.mpr hbefore)
          rw [rejection_of_mem (hf.isOrthonormal_columnsBefore k) htaken,
            smul_zero]
        · rw [hf.triangular j k hafter, zero_smul]
    _ = R k k • columnVector Q k := by
        rw [rejection_of_orthogonal]
        intro u hu
        obtain ⟨j, hj, rfl⟩ := List.mem_map.mp hu
        rw [hf.inner_columnVector,
          if_neg (Fin.ne_of_lt (mem_take_finRange.mp hj))]

theorem norm_leftover (hf : IsFactorisation (design times weights count) Q R)
    (hsized : weights.length = times.length)
    (h : IsBasis times weights count basis) (k : Fin count)
    (hsame : SameLines (basis.map (Column.vector times)) (columnsBefore Q k)) :
    norm (leftover basis (monomial times weights count k)).values =
      |R k k| := by
  have hc := Column.isSampled_monomial hsized k.isLt
  calc norm (leftover basis (monomial times weights count k)).values
      = ‖(leftover basis (monomial times weights count k)).vector times‖ :=
        norm_eq (isSampled_foldl_reject h.sampled hc).long
    _ = |R k k| := by
        rw [hf.vector_leftover hsized h k hsame, norm_smul,
          hf.norm_columnVector, mul_one, Real.norm_eq_abs]

theorem sameLines_append_unitColumn
    (hf : IsFactorisation (design times weights count) Q R)
    (hsized : weights.length = times.length)
    (h : IsBasis times weights count basis) (k : Fin count)
    (hsame : SameLines (basis.map (Column.vector times)) (columnsBefore Q k))
    (hlong : 0 < |R k k|) :
    SameLines
      ((basis ++ [unitColumn basis (monomial times weights count k)]).map
      (Column.vector times)) (columnsBefore Q (k + 1)) := by
  rw [columnsBefore_succ, List.map_append, List.map_singleton]
  refine List.rel_append hsame (.cons ?_ .nil)
  rw [unitColumn, Column.vector_scaleDown, hf.vector_leftover hsized h k hsame,
    hf.norm_leftover hsized h k hsame, smul_smul]
  rcases lt_or_gt_of_ne (abs_pos.mp hlong) with hnegative | hpositive
  · right
    rw [abs_of_neg hnegative, inv_neg, neg_mul,
      inv_mul_cancel₀ hnegative.ne, neg_one_smul]
  · left
    rw [abs_of_pos hpositive, inv_mul_cancel₀ hpositive.ne', one_smul]

/-- Powers from some place on extend a basis just when their diagonal entries
allow it. -/
theorem extend_monomials (hf : IsFactorisation (design times weights count) Q R)
    (hsized : weights.length = times.length)
    (h : IsBasis times weights count basis) {k left : ℕ}
    (hwhole : k + left = count)
    (hsame : SameLines (basis.map (Column.vector times)) (columnsBefore Q k)) :
    ((∃ j : Fin count, k ≤ j ∧ |R j j| < tolerance)
        → extend basis
          (((List.range count).drop k).map (monomial times weights count)) =
            none)
      ∧ ((∀ j : Fin count, k ≤ j → tolerance ≤ |R j j|) → ∃ full,
        extend basis (((List.range count).drop k).map
            (monomial times weights count)) = some full
          ∧ SameLines (full.map (Column.vector times))
            (columnsBefore Q count)) := by
  induction left generalizing basis k with
  | zero =>
      have hnone : (List.range count).drop k = [] := by simp [← hwhole]
      rw [hnone, List.map_nil]
      rw [show k = count from hwhole] at hsame ⊢
      exact ⟨fun ⟨j, hj, _⟩ => absurd j.isLt (by omega),
        fun _ => ⟨basis, rfl, hsame⟩⟩
  | succ left ih =>
      have hinside : k < count := by omega
      have hnext : (List.range count).drop k = k ::
          (List.range count).drop (k + 1) := by
        rw [List.drop_eq_getElem_cons (by simpa using hinside),
          List.getElem_range]
      rw [hnext, List.map_cons, extend_cons,
        hf.norm_leftover hsized h ⟨k, hinside⟩ hsame]
      split
      · rename_i hshort
        exact ⟨fun _ => rfl,
          fun henough => absurd hshort (not_lt.mpr (henough _ le_rfl))⟩
      · rename_i hlong
        have hpositive := tolerance_pos.trans_le (not_lt.mp hlong)
        have hc := Column.isSampled_monomial hsized hinside
        have hsound := h.append_unitColumn hc
          ((hf.norm_leftover hsized h ⟨k, hinside⟩ hsame).symm ▸ hpositive)
        have hgrown : SameLines _ (columnsBefore Q (k + 1)) :=
          hf.sameLines_append_unitColumn hsized h ⟨k, hinside⟩ hsame hpositive
        obtain ⟨hstops, hgoes⟩ := ih hsound (by omega) hgrown
        refine ⟨fun ⟨j, hj, hshort⟩ => hstops ⟨j, ?_, hshort⟩,
          fun henough => hgoes fun j hj => henough j (by omega)⟩
        rcases Nat.eq_or_lt_of_le hj with rfl | hlater
        · exact absurd hshort hlong
        · exact hlater

theorem basis?_eq_none (hf : IsFactorisation (design times weights count) Q R)
    (hsized : weights.length = times.length) {j : Fin count}
    (hshort : |R j j| < tolerance) :
    basis? times weights count = none := by
  have hstart : SameLines ([].map (Column.vector times)) (columnsBefore Q 0) :=
    .nil
  rw [basis?]
  split
  · rfl
  · exact (hf.extend_monomials hsized isBasis_nil (Nat.zero_add count) hstart).1
      ⟨j, by omega, hshort⟩

theorem basis?_eq_some (hf : IsFactorisation (design times weights count) Q R)
    (hsized : weights.length = times.length) (henough : count ≤ times.length)
    (hlong : ∀ j, tolerance ≤ |R j j|) :
    ∃ basis, basis? times weights count = some basis
      ∧ SameLines (basis.map (Column.vector times))
        (columnsBefore Q count) := by
  have hstart : SameLines ([].map (Column.vector times)) (columnsBefore Q 0) :=
    .nil
  rw [basis?, if_neg (not_lt.mpr henough)]
  exact (hf.extend_monomials hsized isBasis_nil (Nat.zero_add count) hstart).2
    fun j _ => hlong j

/-- The tolerance is asked of the diagonal, and the coefficients solve the
triangular system. -/
theorem solve?_eq (hf : IsFactorisation (design times weights count) Q R)
    (hw : weights.length = times.length) (hd : data.length = times.length)
    (henough : count ≤ times.length) :
    ((∃ j, |R j j| < tolerance) → solve? times data weights count = none)
      ∧ ((∀ j, tolerance ≤ |R j j|) → ∃ fit,
          solve? times data weights count = some fit
        ∧ fit.coefficients.length = count
        ∧ R *ᵥ (fun k => fit.coefficients.getD k 0)
          = Qᵀ *ᵥ fun i => weights.getD i 0 * data.getD i 0) := by
  refine ⟨fun ⟨j, hshort⟩ => ?_, fun hlong => ?_⟩
  · rw [solve?, hf.basis?_eq_none hw hshort, Option.map_none]
  obtain ⟨basis, hfound, hsame⟩ := hf.basis?_eq_some hw henough hlong
  set data' := List.zipWith (· * ·) weights data
  have hweighted : data'.length = times.length := by simp [data', hw, hd]
  obtain ⟨hsize, hfree⟩ := project_spec (basis?_spec hw hfound).1 hweighted
  refine ⟨_, by rw [solve?, hfound, Option.map_some], hsize, ?_⟩
  ext j
  have hacross : inner ℝ (columnVector Q j) (signal times.length data'
      - sampling times weights (polynomial (project basis data' count))) =
        0 := by
    refine hsame.inner_eq_zero ?_
      _ (List.mem_map_of_mem (mem_take_finRange.mpr j.isLt))
    intro u hu
    obtain ⟨b, hb, rfl⟩ := List.mem_map.mp hu
    exact hfree b hb
  have hexplained : inner ℝ (columnVector Q j)
      (sampling times weights (polynomial (project basis data' count)))
      = ∑ k : Fin count, R j k * (project basis data' count).getD k 0 := by
    rw [polynomial_eq_sum hsize, map_sum, inner_sum]
    refine Finset.sum_congr rfl fun k _ => ?_
    rw [map_smul, real_inner_smul_right, hf.inner_sampling_X_pow, mul_comm]
  have hasked : inner ℝ (columnVector Q j) (signal times.length data')
      = ∑ i, Q i j * (weights.getD i 0 * data.getD i 0) := by
    rw [PiLp.inner_apply]
    simp [columnVector, data', hw, hd, mul_comm]
  rw [inner_sub_right, hexplained, hasked, sub_eq_zero] at hacross
  exact hacross.symm

end IsFactorisation

end Fit

end PointerMotion
