/-
Changes of unit and origin.  Over exact numbers an affine change of a
coordinate passes through every rule of motion, also where its factor is
negative or zero.
-/
import PointerMotion.Proofs.Axes
import PointerMotion.Proofs.PairWeights
import PointerMotion.Proofs.UniformMotion

open Polynomial

namespace PointerMotion

/-- An affine change of a coordinate. -/
structure Rescaling where
  factor : ℝ
  offset : ℝ

namespace Rescaling

/-- The coordinate in the new unit, from the new origin. -/
noncomputable def apply (r : Rescaling) (c : ℝ) : ℝ :=
  r.factor * c + r.offset

/-- A change of origin leaves differences as they are, and one of unit
multiplies them. -/
theorem apply_sub_apply (r : Rescaling) (c d : ℝ) :
    r.apply c - r.apply d = r.factor * (c - d) := by
  rw [apply, apply]
  ring

end Rescaling

variable {r : Coordinate → Rescaling}

/-- A position with each coordinate changed. -/
noncomputable def Position.rescaled (r : Coordinate → Rescaling)
    (p : Position ℝ) : Position ℝ :=
  ⟨(r .x).apply p.x, (r .y).apply p.y⟩

@[simp] theorem Position.along_rescaled (r : Coordinate → Rescaling)
    (p : Position ℝ) (c : Coordinate) :
    (p.rescaled r).along c = (r c).apply (p.along c) := by
  cases c <;> rfl

/-- The polynomial of a changed coordinate. -/
noncomputable def Quartic.rescaled (r : Rescaling) (q : Quartic ℝ) :
    Quartic ℝ where
  c0 := r.apply q.c0
  c1 := r.factor * q.c1
  c2 := r.factor * q.c2
  c3 := r.factor * q.c3
  c4 := r.factor * q.c4

namespace Filter

noncomputable def Axis.rescaled (r : Rescaling) (a : Axis ℝ) : Axis ℝ where
  position := r.apply a.position
  velocity := r.factor * a.velocity
  acceleration := r.factor * a.acceleration

theorem Axis.resting_rescaled (r : Rescaling) (position : ℝ) :
    Axis.resting (r.apply position) = (Axis.resting position).rescaled r := by
  simp only [resting, rescaled]
  norm_num

/-- A measurement in the new unit moves the motion as it did in the old one. -/
theorem Axis.advance_rescaled (r : Rescaling) (order : Order) (measured : ℕ)
    (dt position : ℝ) (a : Axis ℝ) :
      (a.rescaled r).advance order measured dt (r.apply position) =
      (a.advance order measured dt position).rescaled r := by
  have hmeasured : (r.apply position - r.apply a.position) / dt =
      r.factor * ((position - a.position) / dt) := by
    rw [r.apply_sub_apply, mul_div_assoc]
  by_cases hfirst : measured = 0
  · simp only [advance, if_pos hfirst, rescaled, hmeasured]
  · simp only [advance, if_neg hfirst, rescaled, hmeasured]
    cases order with
    | velocity =>
        simp only [Axis.mk.injEq, true_and, and_true]
        ring
    | acceleration =>
        by_cases hsecond : measured = 1
        · simp only [if_pos hsecond, Axis.mk.injEq, true_and]
          constructor <;> ring
        · simp only [if_neg hsecond, Axis.mk.injEq, true_and]
          constructor <;> ring

theorem Axis.coefficients_rescaled (r : Rescaling) (order : Order)
    (a : Axis ℝ) :
    (a.rescaled r).coefficients order = (a.coefficients order).rescaled r := by
  cases order <;> norm_num [coefficients, rescaled, Quartic.rescaled,
    Quartic.zero, mul_div_assoc]

noncomputable def Motion.rescaled (r : Coordinate → Rescaling)
    (m : Motion ℝ) : Motion ℝ :=
  { m with x := m.x.rescaled (r .x), y := m.y.rescaled (r .y) }

theorem Motion.resting_rescaled (r : Coordinate → Rescaling) (time : ℤ)
    (p : Position ℝ) :
    Motion.resting time (p.rescaled r) =
      (Motion.resting time p).rescaled r := by
  simp only [resting, rescaled, Position.rescaled, Axis.resting_rescaled]

theorem Motion.advance_rescaled (r : Coordinate → Rescaling) (order : Order)
    (time : ℤ) (p : Position ℝ) (m : Motion ℝ) :
    (m.rescaled r).advance order time (p.rescaled r) =
      (m.advance order time p).rescaled r := by
  simp only [advance, rescaled, Position.rescaled, Axis.advance_rescaled]

end Filter

/-- What corresponds is the same but for a change of each coordinate of each
pointer. -/
noncomputable def Correspondence.rescaling
    (scales : PointerId → Coordinate → Rescaling) :
    Correspondence ℝ where
  delay := 0
  position := fun id p q => q = p.rescaled (scales id)
  motion := fun id m n => n = m.rescaled (scales id)
  time := by
    rintro id m n rfl
    exact (Int.add_zero m.time).symm
  resting := by
    rintro id p q rfl time
    rw [Int.add_zero, Filter.Motion.resting_rescaled]
  placed := by
    rintro id m n p q rfl rfl
    simp only [Filter.Motion.rescaled, Position.rescaled,
      Filter.Axis.resting_rescaled]
  advance := by
    rintro id m n p q rfl rfl order time
    rw [Int.add_zero, Filter.Motion.advance_rescaled]

noncomputable def TrackPoint.rescaled (r : Coordinate → Rescaling)
    (p : TrackPoint ℝ) :
    TrackPoint ℝ :=
  { p with position := p.position.rescaled r }

theorem TrackPoint.eq_map_of_matched
    {scales : PointerId → Coordinate → Rescaling} {id : PointerId}
    {points points' : List (TrackPoint ℝ)}
    (h : List.Forall₂ (TrackPoint.Matched (.rescaling scales) id)
      points points') :
    points' = points.map (TrackPoint.rescaled (scales id)) := by
  induction h with
  | nil => rfl
  | @cons p q rest rest' hfirst _ ih =>
      have hpoint : q = p.rescaled (scales id) := by
        obtain ⟨time, position⟩ := q
        obtain ⟨htime, hposition⟩ := hfirst
        exact TrackPoint.mk.injEq .. ▸ ⟨htime.trans (Int.add_zero _), hposition⟩
      rw [List.map_cons, hpoint, ih]

namespace Impulse

noncomputable def Sample.rescaled (r : Rescaling) (s : Sample ℝ) : Sample ℝ :=
  { s with coordinate := r.apply s.coordinate }

@[simp] theorem Sample.time_rescaled (r : Rescaling) (s : Sample ℝ) :
    (s.rescaled r).time = s.time := rfl

theorem axis_rescaled (track : List (TrackPoint ℝ)) (c : Coordinate) :
    axis (fun p => p.along c) (track.map (TrackPoint.rescaled r)) =
      (axis (fun p => p.along c) track).map (Sample.rescaled (r c)) := by
  simp [axis, TrackPoint.rescaled, Sample.rescaled]

variable (r : Rescaling)

theorem intervalVelocity_rescaled (older newer : Sample ℝ) :
    intervalVelocity (older.rescaled r) (newer.rescaled r) =
      r.factor * intervalVelocity older newer := by
  simp only [intervalVelocity, Sample.rescaled, r.apply_sub_apply,
    mul_div_assoc]

/-- The work of an interval is multiplied by the signed square of the factor. -/
theorem workAfter_rescaled (work : ℝ) (older newer : Sample ℝ) :
    workAfter (r.factor * |r.factor| * work) (older.rescaled r)
      (newer.rescaled r) =
      r.factor * |r.factor| * workAfter work older newer := by
  by_cases hsame : older.time = newer.time
  · have hsame' : (older.rescaled r).time = (newer.rescaled r).time := hsame
    rw [workAfter, workAfter, if_pos hsame, if_pos hsame']
  · have hsame' : (older.rescaled r).time ≠ (newer.rescaled r).time := hsame
    rw [workAfter_of_ne hsame, workAfter_of_ne hsame',
      intervalVelocity_rescaled, velocityOfEnergy_scaled, abs_mul]
    ring

theorem workThrough_rescaled (work : ℝ) (samples : List (Sample ℝ)) :
    workThrough (r.factor * |r.factor| * work)
      (samples.map (Sample.rescaled r)) =
      r.factor * |r.factor| * workThrough work samples := by
  induction samples generalizing work with
  | nil => rfl
  | cons older later ih =>
      cases later with
      | nil => rfl
      | cons newer rest =>
          simp only [List.map_cons, workThrough, workAfter_rescaled]
          exact ih _

theorem totalWork_rescaled (samples : List (Sample ℝ)) :
    totalWork (samples.map (Sample.rescaled r)) =
      r.factor * |r.factor| * totalWork samples := by
  have hzero : (0.0 : ℝ) = r.factor * |r.factor| * 0.0 := by norm_num
  match samples with
  | [] | [_] => exact hzero
  | older :: newer :: rest =>
      have hfirst : workAfter 0.0 (older.rescaled r) (newer.rescaled r) =
          r.factor * |r.factor| * workAfter 0.0 older newer := by
        rw [← workAfter_rescaled, ← hzero]
      simp only [List.map_cons, totalWork, Sample.time_rescaled, hfirst,
        mul_assoc, ← mul_ite]
      rw [← mul_assoc, ← List.map_cons, workThrough_rescaled, mul_assoc]

/-- The velocity from impulses is multiplied by the factor. -/
theorem velocity_rescaled (samples : List (Sample ℝ)) :
    velocity (samples.map (Sample.rescaled r)) =
      r.factor * velocity samples := by
  rw [velocity_eq_velocityOfEnergy, ← List.map_reverse, totalWork_rescaled,
    velocityOfEnergy_scaled, ← velocity_eq_velocityOfEnergy]

end Impulse

namespace Average

theorem pairVelocity_rescaled (r : Rescaling) (oldest later : ℝ)
    (duration : ℤ) :
    pairVelocity (r.apply oldest) (r.apply later) duration =
      r.factor * pairVelocity oldest later duration := by
  rw [pairVelocity, pairVelocity, r.apply_sub_apply, mul_assoc]

noncomputable def Pair.rescaled (r : Rescaling) (p : Pair ℝ) : Pair ℝ :=
  { p with velocity := r.factor * p.velocity }

theorem pairs_rescaled (c : Coordinate) (oldest : TrackPoint ℝ)
    (partners : List (TrackPoint ℝ)) :
    pairs (fun p => p.along c) (oldest.rescaled r)
      (partners.map (TrackPoint.rescaled r)) =
      (pairs (fun p => p.along c) oldest partners).map
        (Pair.rescaled (r c)) := by
  simp only [pairs, List.map_map]
  refine List.map_congr_left fun p _ => ?_
  simp only [Function.comp_apply, TrackPoint.rescaled, Position.along_rescaled,
    pairVelocity_rescaled, Pair.rescaled]

noncomputable def Running.rescaled (r : Rescaling)
    (s : Running ℝ) : Running ℝ :=
  { s with velocity := r.factor * s.velocity }

theorem Running.through_rescaled (r : Rescaling) (s : Running ℝ)
    (pairs : List (Pair ℝ)) :
    (s.rescaled r).through (pairs.map (Pair.rescaled r)) =
      (s.through pairs).rescaled r := by
  rw [through, through, List.foldl_map]
  refine List.foldl_hom (Running.rescaled r) fun s p => ?_
  simp only [addPair, add, rescaled, Pair.rescaled, mk.injEq, and_true]
  ring

/-- The average is multiplied by the factor. -/
theorem velocity_rescaled (c : Coordinate) (oldest : TrackPoint ℝ)
    (partners : List (TrackPoint ℝ)) :
    velocity (fun p => p.along c) (oldest.rescaled r)
      (partners.map (TrackPoint.rescaled r)) =
      (r c).factor * velocity (fun p => p.along c) oldest partners := by
  have hstart : Running.start = Running.start.rescaled (r c) := by
    norm_num [Running.start, Running.rescaled]
  rw [velocity_eq_through, velocity_eq_through, pairs_rescaled, hstart,
    Running.through_rescaled, ← hstart]
  rfl

theorem partners_rescaled (oldestTime : ℤ) (later : List (TrackPoint ℝ)) :
    partners oldestTime (later.map (TrackPoint.rescaled r)) =
      (partners oldestTime later).map (TrackPoint.rescaled r) := by
  rw [partners, partners, List.filter_map]
  rfl

end Average

namespace Fit

variable {times data weights : List ℝ} {degree : ℕ} {P P' : ℝ[X]}

/-- A change of the data and of the polynomial multiplies the misfit by the
squared factor. -/
theorem misfit_rescaled (r : Rescaling) (hsized : data.length = times.length)
    (P : ℝ[X]) :
    misfit times (data.map r.apply) weights (C r.factor * P + C r.offset) =
      r.factor ^ 2 * misfit times data weights P := by
  rw [misfit, misfit, Finset.mul_sum]
  refine Finset.sum_congr rfl fun i _ => ?_
  have hi : (i : ℕ) < data.length := by
    rw [hsized]
    exact i.isLt
  have hentry : (data.map r.apply).getD i 0 = r.factor * data.getD i 0 +
      r.offset := by
    simp [hi, Rescaling.apply]
  rw [hentry, eval_add, eval_mul, eval_C, eval_C]
  ring

theorem IsBestFit.unique (h : IsBestFit times data weights degree P)
    (h' : IsBestFit times data weights degree P') : P = P' := by
  by_contra hne
  have hless := h.misfit_lt P' h'.degree_le (Ne.symm hne)
  exact absurd hless (h'.misfit_lt P h.degree_le hne).not_gt

theorem natDegree_rescaled_le (r : Rescaling) (hP : P.natDegree ≤ degree) :
    (C r.factor * P + C r.offset).natDegree ≤ degree := by
  refine natDegree_add_le_of_degree_le ((natDegree_C_mul_le _ _).trans hP) ?_
  rw [natDegree_C]
  exact Nat.zero_le degree

/-- The best fit to changed data is the changed best fit. -/
theorem IsBestFit.eq_rescaled (hsized : data.length = times.length)
    {r : Rescaling} (h : IsBestFit times data weights degree P)
    (h' : IsBestFit times (data.map r.apply) weights degree P') :
    P' = C r.factor * P + C r.offset := by
  have hlow := natDegree_rescaled_le r h.degree_le
  by_cases hfactor : r.factor = 0
  · -- constant data are met everywhere
    apply h'.eq_of_misfit_eq_zero hlow
    rw [misfit_rescaled r hsized, hfactor]
    ring
  · refine h'.unique ⟨hlow, ?_⟩
    intro R hR hne
    let back : Rescaling := ⟨r.factor⁻¹, -(r.factor⁻¹ * r.offset)⟩
    have hback : C r.factor * (C back.factor * R + C back.offset) +
        C r.offset = R := by
      have hunit : C r.factor * C r.factor⁻¹ = (1 : ℝ[X]) := by
        rw [← C_mul, mul_inv_cancel₀ hfactor, C_1]
      simp only [back, C_neg, C_mul]
      linear_combination (R - C r.offset) * hunit
    have hother : C back.factor * R + C back.offset ≠ P := by
      intro hsame
      rw [hsame] at hback
      exact hne hback.symm
    rw [← hback, misfit_rescaled r hsized, misfit_rescaled r hsized]
    exact mul_lt_mul_of_pos_left
      (h.misfit_lt _ (natDegree_rescaled_le back hR) hother)
        (sq_pos_of_ne_zero hfactor)

end Fit

namespace Quartic

theorem eq_of_polynomial_eq {q q' : Quartic ℝ}
    (h : q.polynomial = q'.polynomial) : q = q' := by
  have hcoeff : ∀ k, q.toList.getD k 0 = q'.toList.getD k 0 := by
    intro k
    rw [← Fit.coeff_polynomial, ← Fit.coeff_polynomial]
    exact congrArg (fun P : ℝ[X] => P.coeff k) h
  obtain ⟨c0, c1, c2, c3, c4⟩ := q
  obtain ⟨d0, d1, d2, d3, d4⟩ := q'
  simp only [mk.injEq]
  exact ⟨hcoeff 0, hcoeff 1, hcoeff 2, hcoeff 3, hcoeff 4⟩

theorem polynomial_rescaled (r : Rescaling) (q : Quartic ℝ) :
    (q.rescaled r).polynomial = C r.factor * q.polynomial + C r.offset := by
  simp only [polynomial, toList, rescaled, Rescaling.apply,
    Fit.polynomial, C_add, C_mul]
  ring

end Quartic

namespace Regression

/-- In seconds as in horizons, the changed fit is the fit changed. -/
theorem ofList_toSeconds_rescaled {r : Rescaling} {cs cs' : List ℝ}
    (hsize : cs.length ≤ 5) (hsize' : cs'.length ≤ 5)
    (h : Fit.polynomial cs' = C r.factor * Fit.polynomial cs + C r.offset) :
    Quartic.ofList (toSeconds cs') =
      (Quartic.ofList (toSeconds cs)).rescaled r := by
  have hseconds : (toSeconds cs).length ≤ 5 := by simpa [toSeconds] using hsize
  have hseconds' : (toSeconds cs').length ≤ 5 := by
    simpa [toSeconds] using hsize'
  apply Quartic.eq_of_polynomial_eq
  rw [Quartic.polynomial_rescaled, Quartic.polynomial_ofList hseconds,
    Quartic.polynomial_ofList hseconds', polynomial_toSeconds,
    polynomial_toSeconds, h]
  simp

theorem ages_rescaled (newest : ℤ) (track : List (TrackPoint ℝ)) :
    (ages newest (track.map (TrackPoint.rescaled r)) : List ℝ) =
      ages newest track := by
  simp [ages, TrackPoint.rescaled]

theorem Samples.along_rescaled (weighting : Weighting) (newest : ℤ)
    (track : List (TrackPoint ℝ)) (c : Coordinate) :
    (ofTrack weighting newest (track.map (TrackPoint.rescaled r))).along c =
      ((ofTrack weighting newest track).along c).map (r c).apply := by
  simp [along_ofTrack, TrackPoint.rescaled]

end Regression

/-- The estimate of a pointer with changed coordinates, beside that of the
pointer. -/
structure Estimator.RescaledBy (r : Coordinate → Rescaling)
    (e e' : Estimator ℝ) : Prop where
  time : e'.time = e.time
  degree : e'.degree = e.degree
  along : 1 ≤ e.degree → ∀ c, e'.along c = (e.along c).rescaled (r c)

theorem Estimator.rescaledBy_moving (newest : TrackPoint ℝ)
    {velocity velocity' : Coordinate → ℝ}
    (hvelocity : ∀ c, velocity' c = (r c).factor * velocity c) :
    (moving newest velocity).RescaledBy r
      (moving (newest.rescaled r) velocity') where
  time := rfl
  degree := rfl
  along := by
    intro _ c
    rw [along_moving, along_moving, hvelocity]
    norm_num [Quartic.rescaled, Quartic.zero, TrackPoint.rescaled]

theorem Impulse.estimate_rescaled (track : List (TrackPoint ℝ)) :
    Option.Rel (Estimator.RescaledBy r) (estimate track)
      (estimate (track.map (TrackPoint.rescaled r))) := by
  match track with
  | [] | [_] => exact .none
  | newest :: second :: rest =>
      rw [List.map_cons, List.map_cons, estimate_cons_cons, estimate_cons_cons]
      refine .some (Estimator.rescaledBy_moving newest fun c => ?_)
      rw [← List.map_cons, ← List.map_cons, axis_rescaled, velocity_rescaled]

theorem Average.estimate_rescaled (track : List (TrackPoint ℝ)) :
    Option.Rel (Estimator.RescaledBy r) (estimate track)
      (estimate (track.map (TrackPoint.rescaled r))) := by
  cases track with
  | nil => exact .none
  | cons newest rest =>
      obtain ⟨oldest, later, hreverse⟩ :=
        List.exists_cons_of_ne_nil
          (List.reverse_ne_nil_iff.mpr (List.cons_ne_nil newest rest))
      have hreverse' :
          (newest.rescaled r :: rest.map (TrackPoint.rescaled r)).reverse =
          oldest.rescaled r :: later.map (TrackPoint.rescaled r) := by
        rw [← List.map_cons, ← List.map_reverse, hreverse, List.map_cons]
      have htime : (oldest.rescaled r).time = oldest.time := rfl
      rw [List.map_cons, estimate_of_reverse hreverse,
        estimate_of_reverse hreverse', htime, partners_rescaled,
        List.isEmpty_map]
      split
      · exact .some ⟨rfl, rfl, fun hmoving => absurd hmoving (by decide)⟩
      · exact .some (Estimator.rescaledBy_moving newest fun c =>
            velocity_rescaled c oldest _)

namespace Regression

/-- Best models of one degree, to data and to the changed data. -/
theorem Model.rescaledBy_estimator {s s' : Samples ℝ}
    (htimes : s'.times = s.times) (hweights : s'.weights = s.weights)
    (halong : ∀ c, s'.along c = (s.along c).map (r c).apply)
    (hsized : s.weights.length = s.times.length ∧ ∀ c,
      (s.along c).length = s.times.length) {most : ℕ} (hmost : most ≤ 4)
    {m m' : Model ℝ} (hbest : s.best? most = some m)
    (hbest' : s'.best? most = some m')
    (hdegree : m'.degree = m.degree) (time : ℤ) :
    (m.estimator time).RescaledBy r (m'.estimator time) where
  time := rfl
  degree := congrArg Int.ofNat hdegree
  along := by
    intro _ c
    obtain ⟨-, hhigh, -⟩ := Samples.best?_eq_some hbest
    obtain ⟨hsize, hfit⟩ :=
      Fit.isBestFit_of_solve? hsized.1 (hsized.2 c)
        (Samples.solve?_of_best? hbest c)
    have hsolved := Samples.solve?_of_best? hbest' c
    rw [htimes, hweights, halong, hdegree] at hsolved
    obtain ⟨hsize', hfit'⟩ :=
      Fit.isBestFit_of_solve? hsized.1 (by simp [hsized.2 c]) hsolved
    rw [along_estimator, along_estimator]
    exact ofList_toSeconds_rescaled (by omega) (by omega)
      (hfit.eq_rescaled (hsized.2 c) hfit')

theorem estimate_rescaled (plan : Plan) (track : List (TrackPoint ℝ)) :
    Option.Rel (Estimator.RescaledBy r) (estimate plan track)
      (estimate plan (track.map (TrackPoint.rescaled r))) := by
  cases track with
  | nil => exact .none
  | cons newest rest =>
      let s := Samples.ofTrack plan.weighting newest.time (newest :: rest)
      let s' := Samples.ofTrack plan.weighting newest.time
        ((newest :: rest).map (TrackPoint.rescaled r))
      have htimes : s'.times = s.times :=
        congrArg (List.map horizons) (ages_rescaled _ _)
      have hweights : s'.weights = s.weights :=
        congrArg (fun ages : List ℝ => plan.weighting.weights (ages.map millis))
          (ages_rescaled _ _)
      have hsized : s.weights.length = s.times.length ∧
          ∀ c, (s.along c).length = s.times.length := by
        simp [s, Samples.along_ofTrack]
      have hdegree :=
        Samples.degree_best?_congr htimes hweights
          (min plan.degree.val rest.length)
      have hestimate : estimate plan (newest :: rest) =
          some ((s.best? (min plan.degree.val rest.length)).elim
            (standing newest)
            (·.estimator newest.time)) := estimate_cons plan newest rest
      have hestimate' :
          estimate plan ((newest :: rest).map (TrackPoint.rescaled r)) =
          some ((s'.best? (min plan.degree.val rest.length)).elim
            (standing (newest.rescaled r)) (·.estimator newest.time)) := by
        have hlength : (rest.map (TrackPoint.rescaled r)).length =
            rest.length := List.length_map _
        rw [← hlength]
        exact estimate_cons plan (newest.rescaled r)
          (rest.map (TrackPoint.rescaled r))
      rw [hestimate, hestimate']
      apply Option.Rel.some
      cases hbest : s.best? (min plan.degree.val rest.length) with
      | none =>
          rw [hbest, Option.map_none, Option.map_eq_none_iff] at hdegree
          rw [hdegree]
          exact ⟨rfl, rfl,
            fun hmoving => absurd hmoving (by decide : ¬ (1 : ℤ) ≤ 0)⟩
      | some m =>
          rw [hbest, Option.map_some, Option.map_eq_some_iff] at hdegree
          obtain ⟨m', hbest', hsame⟩ := hdegree
          rw [hbest']
          exact Model.rescaledBy_estimator htimes hweights
            (Samples.along_rescaled plan.weighting newest.time (newest :: rest))
            hsized (by omega) hbest hbest' hsame newest.time

end Regression

theorem TrackPlan.estimate_rescaled (plan : TrackPlan)
    (track : List (TrackPoint ℝ)) :
    Option.Rel (Estimator.RescaledBy r) (plan.estimate track)
      (plan.estimate (track.map (TrackPoint.rescaled r))) := by
  cases plan with
  | regression plan => exact Regression.estimate_rescaled plan track
  | impulse => exact Impulse.estimate_rescaled track
  | average => exact Average.estimate_rescaled track

variable {scales : PointerId → Coordinate → Rescaling} {id : PointerId}

/-- Where coordinates are seen changed, the estimate is that of the changed
coordinates. -/
theorem Sight.Matched.rescaledBy_estimate {v w : Sight ℝ}
    (h : v.Matched (.rescaling scales) id w) :
    Option.Rel (Estimator.RescaledBy (scales id)) v.estimate w.estimate := by
  cases h with
  | @ofTrack plan capacity glimpses glimpses' h =>
      rw [Sight.estimate, Sight.estimate,
        TrackPoint.eq_map_of_matched
          (plan.limits.cut_matched (streak_matched h))]
      exact plan.estimate_rescaled _
  | @filter order motion? motion?' h =>
      cases h with
      | none => exact .none
      | @some m n hmotion =>
          obtain rfl : n = m.rescaled (scales id) := hmotion
          refine .some ⟨rfl, rfl, fun _ c => ?_⟩
          cases c <;> exact Filter.Axis.coefficients_rescaled _ order _

noncomputable def Movement.rescaled
    (scales : PointerId → Coordinate → Rescaling)
    (m : Movement ℝ) : Movement ℝ :=
  { m with
    positions := List.zipWith (fun id p => p.rescaled (scales id))
      m.ids.toList m.positions
    sized := by rw [List.length_zipWith, m.sized,
    PointerSet.card_eq_length_toList, Nat.min_self] }

theorem Movement.position?_rescaled (m : Movement ℝ) (id : PointerId) :
    (m.rescaled scales).position? id =
      (m.position? id).map (Position.rescaled (scales id)) := by
  cases hshown : m.position? id with
  | none =>
      have habsent : id ∉ m.ids := position?_eq_none_iff.mp hshown
      exact position?_eq_none_iff.mpr habsent
  | some p =>
      rw [Option.map_some, ← mem_samples]
      obtain ⟨i, hi⟩ := List.mem_iff_getElem?.mp (mem_samples.mpr hshown)
      obtain ⟨hid, hp⟩ := List.getElem?_zip_eq_some.mp hi
      refine List.mem_iff_getElem?.mpr ⟨i,
        List.getElem?_zip_eq_some.mpr ⟨hid, ?_⟩⟩
      rw [rescaled, List.getElem?_zipWith, hid, hp]

namespace Step

noncomputable def rescaled (scales : PointerId → Coordinate → Rescaling) :
    Step ℝ → Step ℝ
  | add m => add (m.rescaled scales)
  | clear => clear
  | clearPointers gone => clearPointers gone

theorem matched_rescaled (step : Step ℝ) :
    step.Matched (.rescaling scales) (step.rescaled scales) := by
  cases step with
  | add m =>
      refine .add ⟨(Int.add_zero m.time).symm, rfl, ?_⟩
      intro id
      rw [Movement.position?_rescaled]
      cases m.position? id with
      | none => exact .none
      | some p => exact .some rfl
  | clear => exact .clear
  | clearPointers gone => exact .clearPointers gone

/-- Whether a step shows a pointer, if it does, at one place of a coordinate. -/
def RestsAt (id : PointerId) (c : Coordinate) (place : ℝ) : Step ℝ → Prop
  | add m => ∀ p, m.position? id = some p → p.along c = place
  | _ => True

/-- A pointer that rests is where it would be if its unit were nothing. -/
theorem matched_self_of_restsAt {c : Coordinate} {place : ℝ} {step : Step ℝ}
    (h : step.RestsAt id c place) :
    step.Matched (.rescaling fun i d =>
      if i = id ∧ d = c then ⟨0, place⟩ else ⟨1, 0⟩) step := by
  cases step with
  | add m =>
      refine .add ⟨(Int.add_zero m.time).symm, rfl, ?_⟩
      intro i
      cases hshown : m.position? i with
      | none => exact .none
      | some p =>
          refine .some (Position.eq_of_along fun d => ?_)
          rw [Position.along_rescaled]
          beta_reduce
          split
          next hsame =>
            obtain ⟨rfl, rfl⟩ := hsame
            simp [Rescaling.apply, h p hshown]
          next => simp [Rescaling.apply]
  | clear => exact .clear
  | clearPointers gone => exact .clearPointers gone

end Step

namespace Tracker

/-- Runs in lockstep, of which the second one's coordinates are changed. -/
theorem rescaledBy_estimate_run (strategy : StrategyId) (settings : Settings ℝ)
    {left right : List (Step ℝ)}
    (h : List.Forall₂ (Step.Matched (.rescaling scales)) left right)
    (id : PointerId) :
    Option.Rel (Estimator.RescaledBy (scales id))
      (((ofStrategy strategy settings).run left).estimate id)
      (((ofStrategy strategy settings).run right).estimate id) := by
  have hmatched :
      ((ofStrategy strategy settings).run left).Matched (.rescaling scales)
      ((ofStrategy strategy settings).run right) := by
    apply (Matched.ofStrategy (.rescaling scales) strategy settings).run h
    intro time _
    have hdelay : time + (Correspondence.rescaling scales).delay = time :=
      Int.add_zero time
    rw [hdelay]
  rw [Tracker.estimate, Tracker.estimate, Strategy.estimate_eq,
    Strategy.estimate_eq]
  exact (hmatched.strategy id).rescaledBy_estimate

/-- The velocity along a coordinate is multiplied by its factor. -/
theorem map_velocityOf_of_rescaledBy {e? e'? : Option (Estimator ℝ)}
    (h : Option.Rel (Estimator.RescaledBy r) e? e'?) (c : Coordinate) :
    (velocityOf e'?).map (·.along c) =
      (velocityOf e?).map fun v => (r c).factor * v.along c := by
  cases h with
  | none => rfl
  | @some e e' h =>
      rw [velocityOf, velocityOf, h.degree]
      split
      next hmoving =>
        have hslope : (e'.along c).c1 = (r c).factor * (e.along c).c1 :=
          congrArg Quartic.c1 (h.along hmoving c)
        cases c <;> exact congrArg some hslope
      next => rfl

/-- An affine change of the coordinates of a run, of each coordinate of each
pointer by a factor and an offset of its own, leaves after every step whether
there is an estimate, its time and its degree.  An estimate of motion changes
with the coordinates: its position likewise, all that is above by the factor.
So no velocity depends on the origin, and a pointer that rests along a
coordinate has none there. -/
theorem answers_run_rescaled (strategy : StrategyId) (settings : Settings ℝ)
    (scales : PointerId → Coordinate → Rescaling) (steps : List (Step ℝ))
    (count : ℕ) (id : PointerId) :
    let t := (ofStrategy strategy settings).run (steps.take count)
    let u := (ofStrategy strategy settings).run
      ((steps.map (Step.rescaled scales)).take count)
    (u.answer id).1 = (t.answer id).1 ∧
      (u.answer id).2.time = (t.answer id).2.time ∧
      (u.answer id).2.degree = (t.answer id).2.degree ∧
      (1 ≤ (t.answer id).2.degree →
        ∀ c, (u.answer id).2.along c = ((t.answer id).2.along c).rescaled
          (scales id c)) ∧
      (∀ c, (u.velocity id).map (·.along c) =
        (t.velocity id).map fun v => (scales id c).factor * v.along c) ∧
      ∀ c place, (∀ step ∈ steps.take count, step.RestsAt id c place) →
        ∀ v, t.velocity id = some v → v.along c = 0 := by
  intro t u
  have hsteps : List.Forall₂ (Step.Matched (.rescaling scales))
      (steps.take count)
      ((steps.map (Step.rescaled scales)).take count) := by
    rw [← List.map_take, List.forall₂_map_right_iff, List.forall₂_same]
    exact fun step _ => step.matched_rescaled
  have hestimate : Option.Rel (Estimator.RescaledBy (scales id)) (t.estimate id)
      (u.estimate id) :=
    rescaledBy_estimate_run strategy settings hsteps id
  have hanswer : (t.answer id).2.RescaledBy (scales id) (u.answer id).2 := by
    have hrelated := hestimate
    rw [answer, answer]
    generalize t.estimate id = e?, u.estimate id = e'? at hrelated ⊢
    cases hrelated with
    | none =>
        exact ⟨rfl, rfl,
          fun hmoving => absurd hmoving (by decide : ¬ (1 : ℤ) ≤ 0)⟩
    | some h => exact h
  refine ⟨isSome_eq_of_rel hestimate, hanswer.time, hanswer.degree,
    hanswer.along, map_velocityOf_of_rescaledBy hestimate, ?_⟩
  intro c place hrests v hv
  have hself : List.Forall₂ (Step.Matched (.rescaling fun i d =>
      if i = id ∧ d = c then ⟨0, place⟩ else ⟨1, 0⟩))
      (steps.take count) (steps.take count) :=
    List.forall₂_same.mpr fun step hstep =>
      Step.matched_self_of_restsAt (hrests step hstep)
  have hvelocity := map_velocityOf_of_rescaledBy
    (rescaledBy_estimate_run strategy settings hself id) c
  have hv' : velocityOf
      (((ofStrategy strategy settings).run (steps.take count)).estimate id) =
      some v := hv
  simpa [hv'] using hvelocity

/-- The x axis turned about and stretched, and its origin moved. -/
noncomputable def turned (_ : PointerId) : Coordinate → Rescaling
  | .x => ⟨-3, 7⟩
  | .y => ⟨1, 0⟩

section Pair

variable (start drift : Position ℝ)

/-- Two times, 10 ms apart. -/
def pairTimes : List ℤ :=
  [0, 10000000]

theorem sight_run_pair :
    ((ofStrategy .impulse Settings.standard).run
        (lineRun start drift pairTimes)).strategy.sight 1 =
      .ofTrack .impulse TrackPlan.historySize
        [⟨10000000, some (.line start drift 10000000)⟩,
          ⟨0, some (.line start drift 0)⟩] :=
  (sight_run_ofStrategy start drift rfl (by decide)).trans rfl

theorem velocityOf_estimate_pair :
    velocityOf (((ofStrategy .impulse Settings.standard).run
      (lineRun start drift pairTimes)).estimate 1) = some drift := by
  rw [Tracker.estimate, Strategy.estimate_eq, sight_run_pair]
  have honLine : (Sight.ofTrack .impulse TrackPlan.historySize
      [⟨10000000, some (.line start drift 10000000)⟩,
        ⟨0, some (.line start drift 0)⟩]).IsOnLine start drift := by
    intro g hg p hp
    rcases List.mem_pair.mp hg with rfl | rfl <;>
      exact (Option.some.inj hp).symm
  exact congrArg some (honLine.velocity_eq rfl)

end Pair

/-- Where x is turned about, a pointer along x goes the other way, three times
as fast. -/
theorem answers_run_turnedLine :
    let steps := lineRun ⟨0, 5⟩ ⟨100, 0⟩ pairTimes
    let t := (ofStrategy .impulse Settings.standard).run (steps.take 2)
    let u := (ofStrategy .impulse Settings.standard).run
      ((steps.map (Step.rescaled turned)).take 2)
    1 ≤ (t.answer 1).2.degree ∧ t.velocity 1 = some ⟨100, 0⟩ ∧
      (u.velocity 1).map (·.along .x) = some (-300) ∧
      (u.answer 1).2.along .x = ((t.answer 1).2.along .x).rescaled ⟨-3, 7⟩ ∧
      (∀ step ∈ steps.take 2, step.RestsAt 1 .y 5) ∧
      ∀ v, t.velocity 1 = some v → v.along .y = 0 := by
  intro steps t u
  obtain ⟨-, -, -, hrescaled, hvelocity, hresting⟩ :=
    answers_run_rescaled .impulse Settings.standard turned steps 2 1
  have hfound : t.velocity 1 = some ⟨100, 0⟩ :=
    velocityOf_estimate_pair ⟨0, 5⟩ ⟨100, 0⟩
  have hmoving : 1 ≤ (t.answer 1).2.degree := by
    obtain ⟨e, hknown, hmoving, -⟩ := exists_of_velocityOf hfound
    rw [answer, hknown]
    exact hmoving
  have hrests : ∀ step ∈ steps.take 2, step.RestsAt 1 .y 5 := by
    intro step hstep
    have honLine :=
      showsOnLine_of_mem_lineRun ⟨0, 5⟩ ⟨100, 0⟩ (List.mem_of_mem_take hstep)
    cases step with
    | add m =>
        intro p hp
        rw [honLine p hp, Position.along_line]
        norm_num [Position.along]
    | clear => trivial
    | clearPointers gone => trivial
  refine ⟨hmoving, hfound, ?_, hrescaled hmoving .x, hrests,
    hresting .y 5 hrests⟩
  rw [hvelocity, hfound, Option.map_some, turned, Position.along]
  norm_num

end Tracker

end PointerMotion
