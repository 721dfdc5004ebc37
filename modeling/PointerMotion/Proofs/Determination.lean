/-
How much of the data a fit explains.  The spread about the plain mean is the
misfit of a constant, so the share explained lies in the unit interval.
-/
import PointerMotion.Proofs.BestFit
import PointerMotion.Proofs.Factorisation

open Polynomial Matrix

namespace PointerMotion

namespace Fit

theorem clamp_of_mem {x : ℝ} (hlow : 0 ≤ x) (hhigh : x ≤ 1) : clamp x = x := by
  have hzero : (0.0 : ℝ) = 0 := by norm_num
  have hone : (1.0 : ℝ) = 1 := by norm_num
  simp only [clamp, Scalar.less, decide_eq_true_eq, hzero, hone]
  have habove : (if 0 < x then x else 0) = x := by
    split
    · rfl
    next hnot => exact (hlow.antisymm (not_lt.mp hnot))
  rw [habove]
  split
  · rfl
  next hnot => exact (hhigh.antisymm (not_lt.mp hnot)).symm

/-- The sum of a list by the place of its entries. -/
theorem sum_eq_sum_fin {n : ℕ} {xs : List ℝ} (hlength : xs.length = n)
    {f : Fin n → ℝ} (hentry : ∀ i : Fin n, xs.getD i 0 = f i) :
    sum xs = ∑ i, f i := by
  subst hlength
  rw [sum_eq, ← Fin.sum_univ_getElem]
  refine Finset.sum_congr rfl fun i _ => ?_
  rw [← hentry i]
  simp

/-- A list of coefficients has the values of its polynomial. -/
theorem evaluate_eq (coefficients : List ℝ) (t : ℝ) :
    evaluate coefficients t = (polynomial coefficients).eval t := by
  have hterms : ∀ k : Fin coefficients.length,
      (List.zipWith (fun c k => c * power t k) coefficients
        (List.range coefficients.length)).getD k 0 = coefficients.getD k 0 *
          t ^ (k : ℕ) := by
    intro k
    simp [power_eq]
  rw [evaluate, sum_eq_sum_fin (by simp) hterms, polynomial_eq_sum rfl]
  simp [eval_finsetSum, smul_eq_C_mul]

variable {times data weights : List ℝ} {degree : ℕ} {P : ℝ[X]}

/-- What the values of a polynomial miss of the data is its misfit. -/
theorem squares_eq_misfit (hw : weights.length = times.length)
    (hd : data.length = times.length) (P : ℝ[X]) :
    squares weights data (times.map fun t => P.eval t) =
      misfit times data weights P := by
  refine sum_eq_sum_fin (by simp [hw, hd]) fun i => ?_
  have hweight : (i : ℕ) < weights.length := by simp [hw]
  have hdatum : (i : ℕ) < data.length := by simp [hd]
  simp [hweight, hdatum, sq]

theorem misfit_nonneg (times data weights : List ℝ) (P : ℝ[X]) :
    0 ≤ misfit times data weights P :=
  Finset.sum_nonneg fun _ _ => mul_nonneg (sq_nonneg _) (sq_nonneg _)

/-- A polynomial has no misfit when it passes through every sample that has a
weight. -/
theorem misfit_eq_zero_iff :
    misfit times data weights P = 0 ↔
      ∀ i : Fin times.length, weights.getD i 0 ≠ 0 →
        P.eval (times.get i) = data.getD i 0 := by
  rw [misfit, Finset.sum_eq_zero_iff_of_nonneg fun _ _ =>
    mul_nonneg (sq_nonneg _) (sq_nonneg _)]
  refine forall_congr' fun i => ?_
  rw [mul_eq_zero, sq_eq_zero_iff, sq_eq_zero_iff, sub_eq_zero,
    or_iff_not_imp_left, eq_comm (a := data.getD i 0)]
  simp

theorem IsBestFit.misfit_le (h : IsBestFit times data weights degree P)
    {R : ℝ[X]} (hR : R.natDegree ≤ degree) :
    misfit times data weights P ≤ misfit times data weights R := by
  by_cases hsame : R = P
  · rw [hsame]
  · exact (h.misfit_lt R hR hsame).le

/-- The share of a total that is explained when some of it is not. -/
noncomputable def explained (total unexplained : ℝ) : ℝ :=
  if tolerance < total then 1 - unexplained / total else 1

section Explained

variable {total unexplained : ℝ}

theorem determination_eq (weights data fitted : List ℝ) :
    determination weights data fitted =
      clamp (explained
          (squares weights data (List.replicate data.length (mean data)))
        (squares weights data fitted)) := by
  have hone : (1.0 : ℝ) = 1 := by norm_num
  simp only [determination, explained, Scalar.less, decide_eq_true_eq, hone]

theorem clamp_explained (hnonneg : 0 ≤ unexplained)
    (hle : unexplained ≤ total) :
    clamp (explained total unexplained) = explained total unexplained := by
  rw [explained]
  split
  next hspread =>
    have hpositive : 0 < total := tolerance_pos.trans hspread
    apply clamp_of_mem
    · exact sub_nonneg.mpr ((div_le_one hpositive).mpr hle)
    · exact sub_le_self 1 (div_nonneg hnonneg hpositive.le)
  next => exact clamp_of_mem zero_le_one le_rfl

theorem explained_eq_one_iff (hspread : tolerance < total) :
    explained total unexplained = 1 ↔ unexplained = 0 := by
  have hne : total ≠ 0 := (tolerance_pos.trans hspread).ne'
  rw [explained, if_pos hspread, sub_eq_self, div_eq_zero_iff, or_iff_left hne]

/-- The less is missed the more is explained. -/
theorem explained_le_explained {missed : ℝ} (hle : missed ≤ unexplained) :
    explained total unexplained ≤ explained total missed := by
  rw [explained, explained]
  split
  next hspread =>
    have hpositive : 0 < total := tolerance_pos.trans hspread
    gcongr
  next => exact le_rfl

end Explained

variable {count : ℕ} {fit : Solution ℝ}

/-- The spread of the data is what the constant polynomial of their mean
misses. -/
theorem squares_mean (hw : weights.length = times.length)
    (hd : data.length = times.length) :
    squares weights data (List.replicate data.length (mean data)) =
      misfit times data weights (C (mean data)) := by
  have hconstant : List.replicate data.length (mean data) =
      times.map fun t => (C (mean data)).eval t := by simp [hd]
  rw [hconstant, squares_eq_misfit hw hd]

theorem squares_fitted (hw : weights.length = times.length)
    (hd : data.length = times.length) (coefficients : List ℝ) :
    squares weights data (times.map (evaluate coefficients)) =
      misfit times data weights (polynomial coefficients) := by
  rw [← squares_eq_misfit hw hd,
    List.map_congr_left fun t _ => evaluate_eq coefficients t]

theorem misfit_le_misfit_mean (hw : weights.length = times.length)
    (hd : data.length = times.length)
    (hsolved : solve? times data weights (degree + 1) = some fit) :
    misfit times data weights (polynomial fit.coefficients) ≤
      misfit times data weights (C (mean data)) :=
  (isBestFit_of_solve? hw hd hsolved).2.misfit_le
    ((natDegree_C _).trans_le (Nat.zero_le _))

/-- The share that a fit explains lies in the unit interval by itself. -/
theorem determination_of_solve? (hw : weights.length = times.length)
    (hd : data.length = times.length)
    (hsolved : solve? times data weights (degree + 1) = some fit) :
    fit.determination = explained (misfit times data weights (C (mean data)))
      (misfit times data weights (polynomial fit.coefficients)) := by
  have hdetermination : fit.determination =
      determination weights data (times.map (evaluate fit.coefficients)) := by
    obtain ⟨basis, -, rfl⟩ := Option.map_eq_some_iff.mp hsolved
    rfl
  rw [hdetermination, determination_eq, squares_mean hw hd,
    squares_fitted hw hd]
  exact clamp_explained (misfit_nonneg _ _ _ _)
    (misfit_le_misfit_mean hw hd hsolved)

/-- A further coefficient does not let a fit miss more. -/
theorem misfit_finer_le {finer : Solution ℝ}
    (hw : weights.length = times.length) (hd : data.length = times.length)
    (hsolved : solve? times data weights (degree + 1) = some fit)
    (hsolved' : solve? times data weights (degree + 1 + 1) = some finer) :
    misfit times data weights (polynomial finer.coefficients) ≤
      misfit times data weights (polynomial fit.coefficients) :=
  (isBestFit_of_solve? hw hd hsolved').2.misfit_le
    ((isBestFit_of_solve? hw hd hsolved).2.degree_le.trans (Nat.le_succ _))

/-- The coefficients of a fit solve the triangular system of every
factorisation. -/
theorem IsFactorisation.solves {Q : Matrix (Fin times.length) (Fin count) ℝ}
    {R : Matrix (Fin count) (Fin count) ℝ}
    (hf : IsFactorisation (design times weights count) Q R)
    (hw : weights.length = times.length) (hd : data.length = times.length)
    (hsolved : solve? times data weights count = some fit) :
    (∀ k, tolerance ≤ |R k k|) ∧ R *ᵥ (fun k => fit.coefficients.getD k 0) =
      Qᵀ *ᵥ fun i => weights.getD i 0 * data.getD i 0 := by
  have henough : count ≤ times.length := by
    by_contra! hfew
    rw [solve?, basis?, if_pos hfew] at hsolved
    cases hsolved
  obtain ⟨hfails, hsolves⟩ := hf.solve?_eq hw hd henough
  have hlong : ∀ k, tolerance ≤ |R k k| := by
    by_contra! hshort
    rw [hfails hshort] at hsolved
    cases hsolved
  obtain ⟨fit', hsolved', -, hsystem⟩ := hsolves hlong
  obtain rfl : fit = fit' := Option.some.inj (hsolved.symm.trans hsolved')
  exact ⟨hlong, hsystem⟩

/-- The share of the data that a fit reports to explain is a true one, the fit
being what any factorisation of the weighted powers leads to.  It misses no more
than the mean does, so that the share lies in the unit interval before it is
moved there; where there is any spread to speak of it is one just when every
sample that has a weight is hit; and it does not fall when one more coefficient
is asked for. -/
theorem determination_isShare (hw : weights.length = times.length)
    (hd : data.length = times.length) (hcount : 1 ≤ count)
    (hsolved : solve? times data weights count = some fit) :
    let unexplained :=
  squares weights data (times.map (evaluate fit.coefficients))
    let total := squares weights data (List.replicate data.length (mean data))
    (∀ Q R, IsFactorisation (design times weights count) Q R →
        (∀ k, tolerance ≤ |R k k|) ∧ R *ᵥ (fun k => fit.coefficients.getD k 0) =
          Qᵀ *ᵥ fun i => weights.getD i 0 * data.getD i 0) ∧
      unexplained ≤ total ∧
      fit.determination =
        (if tolerance < total then 1 - unexplained / total else 1) ∧
      (tolerance < total → (fit.determination = 1 ↔ ∀ i : Fin times.length,
        weights.getD i 0 ≠ 0 →
        evaluate fit.coefficients (times.get i) = data.getD i 0)) ∧
      ∀ finer, solve? times data weights (count + 1) = some finer →
        fit.determination ≤ finer.determination := by
  obtain ⟨degree, rfl⟩ := Nat.exists_eq_add_of_le' hcount
  intro unexplained total
  have hmissed :
      unexplained = misfit times data weights (polynomial fit.coefficients) :=
    squares_fitted hw hd fit.coefficients
  have hspread : total = misfit times data weights (C (mean data)) :=
    squares_mean hw hd
  have hshare := determination_of_solve? hw hd hsolved
  rw [hmissed, hspread]
  refine ⟨fun Q R hf => hf.solves hw hd hsolved,
    misfit_le_misfit_mean hw hd hsolved, hshare, ?_, ?_⟩
  · intro hsome
    rw [hshare, explained_eq_one_iff hsome, misfit_eq_zero_iff]
    simp only [evaluate_eq]
  · intro finer hsolved'
    rw [hshare, determination_of_solve? hw hd hsolved']
    exact explained_le_explained (misfit_finer_le hw hd hsolved hsolved')

section Unweighted

/-- A line through two samples that count, on either side of one that does
not. -/
theorem isFactorisation_unweighted_line :
    IsFactorisation (design [0, -1, -2] [3 / 5, 0, 4 / 5] 2)
      !![3 / 5, 4 / 5; 0, 0; 4 / 5, -3 / 5] !![1, -32 / 25; 0, 24 / 25] where
  product := by
    ext i k
    fin_cases i <;> fin_cases k <;> norm_num [design, Matrix.mul_apply,
      Fin.sum_univ_two]
  orthonormal := by
    have hcolumns : ∀ Q : Matrix (Fin 3) (Fin 2) ℝ,
        Q = !![3 / 5, 4 / 5; 0, 0; 4 / 5, -3 / 5] → Qᵀ * Q = 1 := by
      rintro _ rfl
      ext i k
      fin_cases i <;> fin_cases k <;>
        norm_num [Matrix.mul_apply, Fin.sum_univ_three, Matrix.cons_val_two]
    exact hcolumns _ rfl
  triangular i j hbefore := by
    fin_cases i <;> fin_cases j <;> simp_all

/-- A constant for the same samples. -/
theorem isFactorisation_unweighted_constant :
    IsFactorisation (design [0, -1, -2] [3 / 5, 0, 4 / 5] 1)
      !![3 / 5; 0; 4 / 5] !![1] where
  product := by
    ext i k
    fin_cases i <;> fin_cases k <;> norm_num [design, Matrix.mul_apply]
  orthonormal := by
    have hcolumn : ∀ Q : Matrix (Fin 3) (Fin 1) ℝ, Q = !![3 / 5; 0; 4 / 5] →
        Qᵀ * Q = 1 := by
      rintro _ rfl
      ext i k
      fin_cases i
      fin_cases k
      norm_num [Matrix.mul_apply, Fin.sum_univ_three, Matrix.cons_val_two]
    exact hcolumn _ rfl
  triangular i j hbefore := absurd hbefore (by omega)

/-- A line through both samples that count explains all of the data, though it
is far from the one between them, and a constant explains no more. -/
theorem determination_isShare_unweighted :
    ∃ constant line : Solution ℝ,
      solve? [0, -1, -2] [1, 6, -1] [3 / 5, 0, 4 / 5] 1 = some constant ∧
        solve? [0, -1, -2] [1, 6, -1] [3 / 5, 0, 4 / 5] 2 = some line ∧
        evaluate line.coefficients (-1) = 0 ∧ line.determination = 1 ∧
        constant.determination ≤ line.determination := by
  have hw : ([3 / 5, 0, 4 / 5] : List ℝ).length =
      ([0, -1, -2] : List ℝ).length := rfl
  have hd : ([1, 6, -1] : List ℝ).length = ([0, -1, -2] : List ℝ).length := rfl
  obtain ⟨constant, hconstant, -⟩ :=
    (isFactorisation_unweighted_constant.solve?_eq hw hd (by simp)).2
      fun j => by
      fin_cases j
      norm_num [tolerance]
  obtain ⟨line, hline, -⟩ :=
    (isFactorisation_unweighted_line.solve?_eq hw hd (by simp)).2 fun j => by
      fin_cases j <;> norm_num [tolerance]
  have hthrough : polynomial line.coefficients = X + C 1 := by
    apply (isBestFit_of_solve? hw hd hline).2.eq_of_misfit_eq_zero
    · exact (natDegree_X_add_C 1).le
    · rw [misfit_eq_zero_iff]
      intro i
      fin_cases i <;> norm_num
  have hspread : (tolerance : ℝ) < squares [3 / 5, 0, 4 / 5] [1, 6, -1]
      (List.replicate ([1, 6, -1] : List ℝ).length (mean [1, 6, -1])) := by
    have hmean : mean ([1, 6, -1] : List ℝ) = 2 := by
      have hsum : mean ([1, 6, -1] : List ℝ) = sum [1, 6, -1] / ((3 : ℤ) : ℝ) :=
        rfl
      rw [hsum, sum_eq]
      norm_num
    rw [hmean]
    norm_num [squares, dot, sum_eq, tolerance, List.replicate]
  obtain ⟨-, -, -, hone, -⟩ := determination_isShare hw hd one_le_two hline
  obtain ⟨-, -, -, -, hfiner⟩ := determination_isShare hw hd le_rfl hconstant
  refine ⟨constant, line, hconstant, hline, ?_, ?_, hfiner line hline⟩
  · rw [evaluate_eq, hthrough]
    norm_num
  · rw [hone hspread]
    intro i
    rw [evaluate_eq, hthrough]
    fin_cases i <;> norm_num

end Unweighted

end Fit

end PointerMotion
