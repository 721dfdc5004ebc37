/-
Regressions in units of event time.  Through milliseconds, horizons and seconds
the estimate remains the best fit to the positions at their event times.
-/
import PointerMotion.Strategy
import PointerMotion.Regression.Lemmas
import PointerMotion.Proofs.BestFit
import PointerMotion.Proofs.Factorisation
import Mathlib.Algebra.Polynomial.Derivative

open Polynomial Matrix

namespace PointerMotion

namespace Quartic

/-- The polynomial of the seconds from the time base. -/
noncomputable def polynomial (q : Quartic ℝ) : ℝ[X] :=
  Fit.polynomial q.toList

/-- The polynomial of the event time in nanoseconds, for a time base. -/
noncomputable def motion (q : Quartic ℝ) (start : ℤ) : ℝ[X] :=
  q.polynomial.comp (C 1e-9 * (X - C (start : ℝ)))

theorem value_eq (q : Quartic ℝ) (t : ℝ) : q.value t = q.polynomial.eval t := by
  simp only [value, polynomial, toList, Fit.polynomial]
  norm_num
  ring

theorem polynomial_ofList {cs : List ℝ} (hfits : cs.length ≤ 5) :
    (ofList cs).polynomial = Fit.polynomial cs := by
  ext k
  rw [polynomial, Fit.coeff_polynomial, Fit.coeff_polynomial]
  match k with
  | 0 | 1 | 2 | 3 | 4 => norm_num [toList, ofList]
  | k + 5 =>
      have hpast : cs.length ≤ k + 5 := by omega
      simp [toList, hpast]

theorem eval_motion (q : Quartic ℝ) (start time : ℤ) :
    (q.motion start).eval (time : ℝ) =
      q.value (((time - start : ℤ) : ℝ) * 1e-9) := by
  rw [value_eq, motion, eval_comp]
  congr 1
  simp only [eval_mul, eval_sub, eval_C, eval_X]
  push_cast
  ring

theorem c1_eq_derivative_motion (q : Quartic ℝ) (start : ℤ) :
    q.c1 = 10 ^ 9 * (q.motion start).derivative.eval (start : ℝ) := by
  have hbase : (C 1e-9 * (X - C (start : ℝ)) : ℝ[X]).eval (start : ℝ) = 0 := by
    simp
  have hslope : (derivative q.polynomial).eval 0 = q.c1 := by
    rw [← coeff_zero_eq_eval_zero, coeff_derivative]
    simp [polynomial, toList]
  have hrate : (derivative (C 1e-9 * (X - C (start : ℝ)) : ℝ[X])).eval
      (start : ℝ) = 1e-9 := by
    simp
  rw [motion, derivative_comp, eval_mul, eval_comp, hbase, hslope, hrate]
  ring

end Quartic

namespace Estimator

theorem positionAt_eq (e : Estimator ℝ) (time : ℤ) :
    e.positionAt time
      = .ok ⟨(e.x.motion e.time).eval (time : ℝ),
          (e.y.motion e.time).eval (time : ℝ)⟩ := by
  rw [Quartic.eval_motion, Quartic.eval_motion]
  rfl

theorem velocity_eq (e : Estimator ℝ) :
    e.velocity = ⟨10 ^ 9 * (e.x.motion e.time).derivative.eval (e.time : ℝ),
      10 ^ 9 * (e.y.motion e.time).derivative.eval (e.time : ℝ)⟩ := by
  rw [← Quartic.c1_eq_derivative_motion, ← Quartic.c1_eq_derivative_motion]
  rfl

end Estimator

namespace Regression

theorem scale_eq : (scale : ℝ) = 1 / 10 := by
  have h : (scale : ℝ) = ((100000000 : ℤ) : ℝ) * 1e-9 := rfl
  rw [h]
  norm_num

theorem polynomial_toSeconds (cs : List ℝ) :
    Fit.polynomial (toSeconds cs) = (Fit.polynomial cs).comp (C 10 * X) := by
  ext k
  rw [comp_C_mul_X_coeff, Fit.coeff_polynomial, Fit.coeff_polynomial]
  by_cases h : k < cs.length
  · simp [toSeconds, h, Fit.power_eq, scale_eq, div_eq_mul_inv]
  · simp [toSeconds, h]

/-- Ages in horizons are a linear image of the event times. -/
theorem times_ofTrack (weighting : Weighting) (newest : ℤ)
    (track : List (TrackPoint ℝ)) :
    (Samples.ofTrack weighting newest track).times
      = (track.map fun p => (p.time : ℝ)).map fun t : ℝ =>
        1e-8 * t + -1e-8 * newest := by
  simp only [Samples.ofTrack, ages, List.map_map]
  refine List.map_congr_left fun p _ => ?_
  have h : horizons (Scalar.ofInt (newest - p.time) : ℝ)
      = -((newest - p.time : ℤ) : ℝ) * 1e-9 / scale := rfl
  simp only [Function.comp_apply, h, scale_eq]
  push_cast
  ring

/-- A fit in seconds is the fit in horizons over the event times. -/
theorem motion_ofList_toSeconds {cs : List ℝ} (hfits : cs.length ≤ 5)
    (newest : ℤ) :
    (Quartic.ofList (toSeconds cs)).motion newest
      = (Fit.polynomial cs).comp (C 1e-8 * X + C (-1e-8 * (newest : ℝ))) := by
  have hshorter : (toSeconds cs).length ≤ 5 := by simpa [toSeconds] using hfits
  rw [Quartic.motion, Quartic.polynomial_ofList hshorter,
    polynomial_toSeconds, comp_assoc]
  congr 1
  refine Polynomial.funext fun t => ?_
  simp only [eval_comp, eval_add, eval_mul, eval_sub, eval_C, eval_X]
  ring

/-- A fit of one coordinate is the best one over the event times. -/
theorem Samples.isBestFit_motion {weighting : Weighting} {newest : ℤ}
    {track : List (TrackPoint ℝ)} {data : List ℝ} {degree : ℕ}
    {fit : Fit.Solution ℝ} (hsized : data.length = track.length)
    (hlow : degree ≤ 4)
    (hsolved : Fit.solve? (ofTrack weighting newest track).times data
      (ofTrack weighting newest track).weights (degree + 1) = some fit) :
    Fit.IsBestFit (track.map fun p => (p.time : ℝ)) data
      (weighting.weights ((ages newest track).map millis)) degree
      ((Quartic.ofList (toSeconds fit.coefficients)).motion newest) := by
  obtain ⟨hsize, hbest⟩ :=
    Fit.isBestFit_of_solve? (by simp) (by simpa using hsized) hsolved
  have hfits : fit.coefficients.length ≤ 5 :=
    hsize.trans_le (Nat.succ_le_succ hlow)
  -- horizons are linear in event time, which keeps best fits
  rw [times_ofTrack] at hbest
  rw [motion_ofList_toSeconds hfits]
  exact hbest.comp_linear (by norm_num)

/-- A factorisation with a diagonal above the tolerance gives fits of both
axes. -/
theorem Samples.exists_fit?_of_factorisation {weighting : Weighting}
    {newest : ℤ} {track : List (TrackPoint ℝ)} {degree : ℕ}
    (henough : degree < track.length)
    (hfactorised : ∃ Q R,
      Fit.IsFactorisation (Fit.design (ofTrack weighting newest track).times
      (ofTrack weighting newest track).weights (degree + 1)) Q R
      ∧ ∀ k, Fit.tolerance ≤ |R k k|) :
    ∃ fits, (ofTrack weighting newest track).fit? degree = some fits := by
  obtain ⟨Q, R, hf, hlong⟩ := hfactorised
  have hrows : degree + 1 ≤ (ofTrack weighting newest track).times.length := by
    simpa using henough
  have hsolved : ∀ data : List ℝ, data.length = track.length →
      ∃ fit, Fit.solve? (ofTrack weighting newest track).times data
        (ofTrack weighting newest track).weights (degree + 1) = some fit := by
    intro data hsized
    obtain ⟨fit, hfound, -⟩ :=
      (hf.solve?_eq (by simp) (by simpa using hsized) hrows).2 hlong
    exact ⟨fit, hfound⟩
  obtain ⟨x, hfitX⟩ :=
    hsolved (ofTrack weighting newest track).xs (by simp [ofTrack])
  obtain ⟨y, hfitY⟩ :=
    hsolved (ofTrack weighting newest track).ys (by simp [ofTrack])
  exact ⟨(x, y), fit?_of_solve? hfitX hfitY⟩

end Regression

/-- An estimator whose position in event time is, in each coordinate, closer to
the weighted points of a track than any other polynomial of its degree, and
whose velocity is the slope of that position at the newest point, per second. -/
structure Estimator.FitsBest (e : Estimator ℝ) (weights : List ℝ)
    (track : List (TrackPoint ℝ)) : Prop where
  newest : track.head?.map (·.time) = some e.time
  x : Fit.IsBestFit (track.map fun p => (p.time : ℝ))
    (track.map (·.position.x)) weights
    e.degree.toNat (e.x.motion e.time)
  y : Fit.IsBestFit (track.map fun p => (p.time : ℝ))
    (track.map (·.position.y)) weights
    e.degree.toNat (e.y.motion e.time)
  position : ∀ time : ℤ, e.positionAt time
    = .ok ⟨(e.x.motion e.time).eval (time : ℝ),
      (e.y.motion e.time).eval (time : ℝ)⟩
  velocity : e.velocity =
    ⟨10 ^ 9 * (e.x.motion e.time).derivative.eval (e.time : ℝ),
    10 ^ 9 * (e.y.motion e.time).derivative.eval (e.time : ℝ)⟩

namespace Regression

variable {plan : Plan} {track : List (TrackPoint ℝ)} {e : Estimator ℝ}

theorem fitsBest_of_estimate (hknown : estimate plan track = some e)
    (hmoving : 1 ≤ e.degree) :
    e.FitsBest (plan.weighting.weights ((ages e.time track).map millis))
      track := by
  obtain ⟨newest, rest, hshape, htime, ⟨m, hfound, rfl⟩ | ⟨-, rfl⟩⟩ :=
    estimate_eq_some hknown
  · obtain ⟨-, hhigh, hfit⟩ := Samples.best?_eq_some hfound
    obtain ⟨hfitX, hfitY⟩ := Samples.fit?_eq_some hfit
    have hlow : m.degree ≤ 4 := by omega
    exact
      { newest := by rw [hshape]; rfl
        x := Samples.isBestFit_motion (by simp) hlow hfitX
        y := Samples.isBestFit_motion (by simp) hlow hfitY
        position := Estimator.positionAt_eq _
        velocity := Estimator.velocity_eq _ }
  · simp [standing, Estimator.cleared] at hmoving

theorem degree_le_of_estimate (hknown : estimate plan track = some e)
    {degree : ℕ} (hlow : 1 ≤ degree) (hhigh : degree ≤ plan.degree)
    (henough : degree < track.length)
    (hfactorised : ∃ Q R,
      Fit.IsFactorisation (Fit.design ((ages e.time track).map horizons)
      (plan.weighting.weights ((ages e.time track).map millis))
      (degree + 1)) Q R
      ∧ ∀ k, Fit.tolerance ≤ |R k k|) : (degree : ℤ) ≤ e.degree := by
  obtain ⟨newest, rest, hshape, htime, hbest⟩ := estimate_eq_some hknown
  rw [htime] at hfactorised
  obtain ⟨fits, hfound⟩ :=
    Samples.exists_fit?_of_factorisation henough hfactorised
  obtain ⟨m, hchosen, habove⟩ := Samples.exists_best?_of_fit? hlow
    (Nat.le_min.mpr ⟨hhigh, Nat.le_sub_one_of_lt henough⟩) hfound
  rcases hbest with ⟨m', hfound', rfl⟩ | ⟨hmissing, -⟩
  · obtain rfl := Option.some.inj (hchosen.symm.trans hfound')
    exact Int.ofNat_le.mpr habove
  · rw [hmissing] at hchosen
    cases hchosen

end Regression

/-- The estimate of a regression is the best fit to the track of the pointer,
whenever it is one of motion at all.  It is one of motion, and its degree is no
lower than it has to be, where a factorisation of the weighted powers of the
times has a diagonal above the tolerance. -/
theorem Strategy.estimate_fitsBest (plan : Regression.Plan)
    (history : History ℝ) (id : PointerId) (e : Estimator ℝ)
    (hknown :
      (Strategy.ofTrack (.regression plan) history).estimate id = some e) :
    let track := history.track id Regression.limits
    let weights :=
      plan.weighting.weights
        ((Regression.ages e.time track).map Regression.millis)
    let times := (Regression.ages e.time track).map Regression.horizons
    (1 ≤ e.degree → e.FitsBest weights track) ∧
      ∀ degree : ℕ, 1 ≤ degree → degree ≤ plan.degree → degree < track.length →
        (∃ Q R, Fit.IsFactorisation (Fit.design times weights (degree + 1)) Q R
          ∧ ∀ k, Fit.tolerance ≤ |R k k|) →
        (degree : ℤ) ≤ e.degree := by
  intro track weights times
  have hofTrack : Regression.estimate plan track = some e := hknown
  constructor
  · intro hmoving
    exact Regression.fitsBest_of_estimate hofTrack hmoving
  · intro degree hlow hhigh henough hfactorised
    exact Regression.degree_le_of_estimate hofTrack hlow hhigh
      henough hfactorised

section Pair

open Regression

theorem historySize_pos : 0 < TrackPlan.historySize := by
  decide

/-- Two samples of a pointer, a tenth of a horizon apart, the second in
company. -/
noncomputable def History.pair : History ℝ :=
  ((History.ofCapacity TrackPlan.historySize historySize_pos).append
    ⟨0, {5}, [⟨0, 0⟩], by decide⟩).append
    ⟨10000000, .ofList [1, 5], [⟨1, 1⟩, ⟨1, -1⟩], by decide⟩

theorem History.track_pair :
    History.pair.track 5 limits = [⟨10000000, ⟨1, -1⟩⟩, ⟨0, ⟨0, 0⟩⟩] :=
  rfl

theorem Regression.samples_pair :
    Samples.ofTrack .none 10000000 (History.pair.track 5 limits)
      = ⟨[0, -1 / 10], [1, 1], [1, 0], [-1, 0]⟩ := by
  have htimes := times_ofTrack .none 10000000 (History.pair.track 5 limits)
  rw [History.track_pair] at htimes ⊢
  have htimed : (Samples.ofTrack .none 10000000
      [⟨10000000, ⟨1, -1⟩⟩, ⟨0, ⟨(0 : ℝ), 0⟩⟩]).times = [0, -1 / 10] := by
    rw [htimes]
    norm_num
  have hweighted : (Samples.ofTrack .none 10000000
      [⟨10000000, ⟨1, -1⟩⟩, ⟨0, ⟨(0 : ℝ), 0⟩⟩]).weights = [1, 1] := by
    norm_num [Samples.ofTrack, ages, Weighting.weights, Weighting.weightsBehind,
      Weighting.weight]
  simp only [Samples.ofTrack] at htimed hweighted ⊢
  simp [htimed, hweighted]

/-- The factorisation for a line through two times a tenth of a horizon
apart. -/
theorem Fit.isFactorisation_pair :
    IsFactorisation (design [0, -1 / 10] [1, 1] 2)
      !![1 / √2, 1 / √2; 1 / √2, -1 / √2] !![√2, -1 / (10 * √2); 0,
          1 / (10 * √2)] where
  product := by
    have hroot : √2 ≠ 0 := by positivity
    ext i k
    fin_cases i <;> fin_cases k <;>
      simp [design, Matrix.mul_apply, Fin.sum_univ_two] <;>
        field_simp <;> norm_num
  orthonormal := by
    have hroot : √2 ≠ 0 := by positivity
    have hsquare : √2 ^ 2 = 2 := Real.sq_sqrt (by norm_num)
    ext i k
    fin_cases i <;> fin_cases k <;>
      simp [Matrix.mul_apply, Fin.sum_univ_two] <;> field_simp <;>
        norm_num [hsquare]
  triangular i j hbefore := by
    fin_cases i <;> fin_cases j <;> simp_all

theorem Fit.tolerance_le_diagonal_pair (j : Fin 2) :
    (tolerance : ℝ)
      ≤ |(!![√2, -1 / (10 * √2); 0, 1 / (10 * √2)]
          : Matrix (Fin 2) (Fin 2) ℝ) j j| := by
  have hsmall : (tolerance : ℝ) ≤ 1 / 20 := by norm_num [tolerance]
  have hlow : (1 : ℝ) ≤ √2 := Real.one_le_sqrt.mpr (by norm_num)
  have hhigh : √2 ≤ (2 : ℝ) := Real.sqrt_le_iff.mpr (by norm_num)
  revert j
  refine Fin.forall_fin_two.mpr ⟨?_, ?_⟩
  · exact (hsmall.trans (by linarith)).trans (le_abs_self √2)
  · have hentry : (1 : ℝ) / 20 ≤ 1 / (10 * √2) :=
      one_div_le_one_div_of_le (by positivity) (by linarith)
    exact (hsmall.trans hentry).trans (le_abs_self _)

theorem Fit.misfit_line_pair (x a : ℝ) (hslope : a * 10000000 = x) :
    misfit [10000000, 0] [x, 0] [1, 1] (C a * X) = 0 := by
  have hterms := Fin.sum_univ_two fun i : Fin 2 =>
    [(1 : ℝ), 1].getD i 0 ^ 2 *
      ([x, 0].getD i 0 - (C a * X).eval ([(10000000 : ℝ), 0].get i)) ^ 2
  refine hterms.trans ?_
  simp [hslope]

theorem Strategy.estimate_pair :
    ∃ e : Estimator ℝ,
      (Strategy.ofTrack (.regression ⟨1, .none⟩) History.pair).estimate 5
          = some e
        ∧ e.time = 10000000 := by
  have hknown : ∃ e,
      Regression.estimate ⟨1, .none⟩ (History.pair.track 5 limits)
        = some e := by
    rw [History.track_pair, Regression.estimate]
    split <;> exact ⟨_, rfl⟩
  obtain ⟨e, hknown⟩ := hknown
  obtain ⟨newest, rest, hshape, htime, -⟩ := estimate_eq_some hknown
  rw [History.track_pair] at hshape
  cases hshape
  exact ⟨e, hknown, htime⟩

/-- The best line runs through both samples, at their difference per second. -/
theorem Strategy.estimate_fitsBest_pair :
    ∃ e : Estimator ℝ,
      (Strategy.ofTrack (.regression ⟨1, .none⟩) History.pair).estimate 5
          = some e
        ∧ 1 ≤ e.degree
        ∧ e.FitsBest [1, 1] [⟨10000000, ⟨1, -1⟩⟩, ⟨0, ⟨0, 0⟩⟩]
        ∧ e.velocity = ⟨100, -100⟩ := by
  obtain ⟨e, hknown, htime⟩ := Strategy.estimate_pair
  obtain ⟨hfits, hmoves⟩ := Strategy.estimate_fitsBest _ _ _ e hknown
  have htimes : (ages 10000000 (History.pair.track 5 limits)).map horizons =
      [0, -1 / 10] :=
    congrArg Samples.times samples_pair
  have hweights : Weighting.none.weights
      ((ages 10000000 (History.pair.track 5 limits)).map millis) = [1, 1] :=
    congrArg Samples.weights samples_pair
  rw [show (⟨1, .none⟩ : Regression.Plan).weighting = .none from rfl,
    htime] at hfits hmoves
  rw [hweights] at hfits hmoves
  rw [htimes] at hmoves
  have hmoving : 1 ≤ e.degree :=
    hmoves 1 (le_refl 1) (le_refl 1) (by simp [History.track_pair])
    ⟨_, _, Fit.isFactorisation_pair, Fit.tolerance_le_diagonal_pair⟩
  have hbest := hfits hmoving
  rw [History.track_pair] at hbest
  refine ⟨e, hknown, hmoving, hbest, ?_⟩
  have hbestX := hbest.x
  have hbestY := hbest.y
  simp only [List.map_cons, List.map_nil, Int.cast_ofNat,
    Int.cast_zero] at hbestX hbestY
  have hlinear : ∀ a : ℝ, (C a * X).natDegree ≤ e.degree.toNat := by
    intro a
    have hline : (C a * X).natDegree ≤ 1 :=
      (natDegree_C_mul_le a X).trans natDegree_X_le
    omega
  -- a line through both samples misses none, so it is the one best fit
  rw [hbest.velocity,
    hbestX.eq_of_misfit_eq_zero (hlinear 1e-7)
      (Fit.misfit_line_pair 1 1e-7 (by norm_num)),
      hbestY.eq_of_misfit_eq_zero (hlinear (-1e-7))
        (Fit.misfit_line_pair (-1) (-1e-7) (by norm_num))]
  norm_num

end Pair

end PointerMotion
