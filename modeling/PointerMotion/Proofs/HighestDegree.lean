/-
The highest degree that samples determine.  Samples that determine a polynomial
determine those of fewer coefficients, so lowering the degree from the top ends
where raising it from the bottom does.
-/
import PointerMotion.Proofs.EventTime
import Mathlib.Analysis.InnerProductSpace.GramSchmidtOrtho
import Mathlib.LinearAlgebra.Matrix.Rank

open Polynomial Matrix

namespace PointerMotion

namespace Fit

variable {times weights : List ℝ} {count : ℕ}

/-- Vectors, as many as they have coordinates, lie along the first ones of an
orthonormal basis. -/
theorem exists_triangular_basis {n : ℕ}
    (vectors : Fin n → EuclideanSpace ℝ (Fin n)) :
    ∃ basis : OrthonormalBasis (Fin n) ℝ (EuclideanSpace ℝ (Fin n)),
      ∀ i j, i < j → inner ℝ (basis j) (vectors i) = 0 := by
  have hdimension : Module.finrank ℝ (EuclideanSpace ℝ (Fin n)) =
      Fintype.card (Fin n) :=
    finrank_euclideanSpace
  refine ⟨InnerProductSpace.gramSchmidtOrthonormalBasis hdimension vectors, ?_⟩
  intro i j hbefore
  exact InnerProductSpace.gramSchmidtOrthonormalBasis_inv_triangular hdimension
    vectors hbefore

/-- Matrices with no more columns than rows can be factorised. -/
theorem exists_isFactorisation (A : Matrix (Fin times.length) (Fin count) ℝ)
    (henough : count ≤ times.length) : ∃ Q R, IsFactorisation A Q R := by
  obtain ⟨basis, hlater⟩ := exists_triangular_basis fun i : Fin times.length =>
    if h : i < count then columnVector A ⟨i, h⟩ else 0
  have halong : ∀ k : Fin count, ∀ j : Fin times.length, (k : ℕ) < j →
      inner ℝ (basis j) (columnVector A k) = 0 := by
    intro k j hbefore
    have := hlater (k.castLE henough) j hbefore
    simpa using this
  refine ⟨.of fun i j => basis (j.castLE henough) i,
    .of fun j k => inner ℝ (basis (j.castLE henough)) (columnVector A k), ?_,
    ?_, ?_⟩
  · ext i k
    have hwhole : ∑ j,
        inner ℝ (basis j) (columnVector A k) * basis j i = A i k := by
      have hentry := congrArg (· i) (basis.sum_repr' (columnVector A k))
      simpa [columnVector] using hentry
    rw [Matrix.mul_apply, ← hwhole]
    symm
    refine Fintype.sum_of_injective (Fin.castLE henough)
      (Fin.castLE_injective henough) _ _ ?_ ?_
    · intro j houtside
      have hpast : count ≤ j := by
        by_contra! hbefore
        exact houtside ⟨⟨j, hbefore⟩, rfl⟩
      rw [halong k j (k.isLt.trans_le hpast), zero_mul]
    · intro j
      exact mul_comm _ _
  · ext j k
    have hentry :=
      orthonormal_iff_ite.mp basis.orthonormal (j.castLE henough)
        (k.castLE henough)
    rw [Matrix.mul_apply, Matrix.one_apply]
    simpa [PiLp.inner_apply, mul_comm] using hentry
  · intro i j hbefore
    exact halong j _ hbefore

namespace IsFactorisation

/-- Fewer columns are factorised by as many columns and the upper corner of the
triangle. -/
theorem init {A Q : Matrix (Fin times.length) (Fin (count + 1)) ℝ}
    {R : Matrix (Fin (count + 1)) (Fin (count + 1)) ℝ}
    (hf : IsFactorisation A Q R) :
    IsFactorisation (A.submatrix id Fin.castSucc) (Q.submatrix id Fin.castSucc)
      (R.submatrix Fin.castSucc Fin.castSucc) where
  product := by
    ext i k
    have hentry := congrFun (congrFun hf.product i) k.castSucc
    rw [Matrix.mul_apply, Fin.sum_univ_castSucc,
      hf.triangular _ _ (Fin.castSucc_lt_last k), mul_zero, add_zero] at hentry
    rw [Matrix.mul_apply]
    exact hentry
  orthonormal := by
    ext j k
    have hentry := congrFun (congrFun hf.orthonormal j.castSucc) k.castSucc
    rw [Matrix.mul_apply, Matrix.one_apply] at hentry ⊢
    simpa using hentry
  triangular i j hbefore :=
    hf.triangular _ _ (Fin.castSucc_lt_castSucc_iff.mpr hbefore)

/-- There are no more columns at right angles than rows. -/
theorem count_le {A Q : Matrix (Fin times.length) (Fin count) ℝ}
    {R : Matrix (Fin count) (Fin count) ℝ} (hf : IsFactorisation A Q R) :
    count ≤ times.length := by
  calc count = (1 : Matrix (Fin count) (Fin count) ℝ).rank := by simp
    _ = (Qᵀ * Q).rank := by rw [hf.orthonormal]
    _ ≤ Q.rank := Matrix.rank_mul_le_right Qᵀ Q
    _ ≤ times.length := Q.rank_le_height

end IsFactorisation

/-- Whether times and weights determine a polynomial with some number of
coefficients: no diagonal entry of a factorisation is below the tolerance. -/
def Determines (times weights : List ℝ) (count : ℕ) : Prop :=
  ∃ Q R, IsFactorisation (design times weights count) Q R ∧
    ∀ j, tolerance ≤ |R j j|

/-- What determines a polynomial determines those with fewer coefficients. -/
theorem Determines.of_succ (h : Determines times weights (count + 1)) :
    Determines times weights count := by
  obtain ⟨Q, R, hf, hlong⟩ := h
  exact ⟨_, _, hf.init, fun j => hlong j.castSucc⟩

theorem isSome_basis?_iff (hsized : weights.length = times.length) :
    (basis? times weights count).isSome ↔ Determines times weights count := by
  constructor
  · intro hfound
    have henough : count ≤ times.length := by
      by_contra! hfew
      simp [basis?, hfew] at hfound
    obtain ⟨Q, R, hf⟩ :=
      exists_isFactorisation (design times weights count) henough
    refine ⟨Q, R, hf, ?_⟩
    by_contra! hshort
    obtain ⟨j, hshort⟩ := hshort
    rw [hf.basis?_eq_none hsized hshort] at hfound
    cases hfound
  · rintro ⟨Q, R, hf, hlong⟩
    obtain ⟨basis, hfound, -⟩ := hf.basis?_eq_some hsized hf.count_le hlong
    rw [hfound]
    rfl

/-- All factorisations agree on the tolerance. -/
theorem IsFactorisation.determines_iff
    {Q : Matrix (Fin times.length) (Fin count) ℝ}
    {R : Matrix (Fin count) (Fin count) ℝ}
    (hf : IsFactorisation (design times weights count) Q R)
    (hsized : weights.length = times.length) :
    Determines times weights count ↔ ∀ j, tolerance ≤ |R j j| := by
  refine ⟨fun hdetermined => ?_, fun hlong => ⟨Q, R, hf, hlong⟩⟩
  by_contra! hshort
  obtain ⟨j, hshort⟩ := hshort
  have hmissing := hf.basis?_eq_none hsized hshort
  rw [← isSome_basis?_iff hsized, hmissing] at hdetermined
  cases hdetermined

section Stretching

variable {α : Type} {times data weights : List α}

theorem stretch_length (xs : List α) : stretch xs xs.length = .ok xs :=
  if_pos rfl

theorem commonLength_self (n : ℕ) : commonLength n n = .ok n :=
  if_pos rfl

variable [Scalar α]

/-- With as many weights as times only the data are stretched, and only if there
is a basis. -/
theorem solveStretched?_eq (hw : weights.length = times.length) {count : ℕ}
    (hpositive : 1 ≤ count) :
    solveStretched? times data weights count =
      match basis? times weights count with
      | none => .ok none
      | some _ => (commonLength times.length data.length).bind fun common =>
          if common = times.length then
            (stretch data times.length).map fun data =>
              solve? times data weights count
          else .error .lengths := by
  have hsome : ¬ (count : ℤ) ≤ 0 := by omega
  have htimed : stretch times times.length = .ok times := stretch_length times
  have hweighted : stretch weights times.length = .ok weights :=
    hw ▸ stretch_length weights
  cases hfound : basis? times weights count with
  | none =>
      simp only [solveStretched?, hw, commonLength_self, htimed, hweighted,
        hsome, Int.toNat_natCast, if_false, hfound, bind, Except.bind,
        pure, Except.pure]
  | some basis =>
      simp only [solveStretched?, hw, commonLength_self, htimed, hweighted,
        hsome, Int.toNat_natCast, if_false, hfound, bind, Except.bind, pure,
        Except.pure, Except.map]

/-- Data as long as the times are fitted as they are. -/
theorem solveStretched?_of_sized (hw : weights.length = times.length)
    (hd : data.length = times.length) {count : ℕ} (hpositive : 1 ≤ count) :
    solveStretched? times data weights count =
      .ok (solve? times data weights count) := by
  have hgiven : stretch data times.length = .ok data := hd ▸ stretch_length data
  rw [solveStretched?_eq hw hpositive, hd, commonLength_self, hgiven]
  cases hfound : basis? times weights count with
  | none => simp [solve?, hfound]
  | some basis => simp [Except.bind, Except.map]

/-- There is no fit when there is no basis, whatever the data are. -/
theorem solveStretched?_eq_ok_none_iff (hw : weights.length = times.length)
    {count : ℕ} (hpositive : 1 ≤ count) :
    solveStretched? times data weights count = .ok none ↔
      basis? times weights count = none := by
  rw [solveStretched?_eq hw hpositive]
  cases hfound : basis? times weights count with
  | none => simp
  | some basis =>
      have hfits : ∀ data : List α, solve? times data weights count ≠ none := by
        intro data
        simp [solve?, hfound]
      simp only [reduceCtorEq, iff_false]
      cases hcommon : commonLength times.length data.length with
      | error e => simp [Except.bind]
      | ok length =>
          cases hgiven : stretch data times.length with
          | error e =>
              by_cases hsame : length = times.length <;>
                simp [Except.bind, Except.map, hsame]
          | ok stretched =>
              by_cases hsame : length = times.length <;>
                simp [Except.bind, Except.map, hsame, hfits stretched]

end Stretching

theorem isSome_solve?_iff (hsized : weights.length = times.length)
    (data : List ℝ) :
    (solve? times data weights count).isSome ↔
      Determines times weights count := by
  rw [solve?, Option.isSome_map, isSome_basis?_iff hsized]

/-- Whether there is a fit is settled by the times and the weights. -/
theorem solveStretched?_eq_ok_none_iff_not_determines
    (hsized : weights.length = times.length) (hpositive : 1 ≤ count)
    (data : List ℝ) :
    solveStretched? times data weights count = .ok none ↔
      ¬ Determines times weights count := by
  rw [solveStretched?_eq_ok_none_iff hsized hpositive,
    ← isSome_basis?_iff hsized, Option.not_isSome_iff_eq_none]

end Fit

namespace Regression

namespace Samples

section Climbing

variable {α : Type} [Scalar α]

/-- The degrees up to a bound such that every one from the first on has fits of
both axes. -/
def supported (s : Samples α) (most : ℕ) : Set ℕ :=
  {degree | degree ≤ most ∧ ∀ d, 1 ≤ d → d ≤ degree → (s.fit? d).isSome}

/-- The degree that is reached from another in some steps, each to a degree that
has fits. -/
def climb (s : Samples α) (degree : ℕ) : ℕ → ℕ
  | 0 => degree
  | steps + 1 =>
      if (s.fit? (degree + 1)).isSome then
        s.climb (degree + 1) steps else degree

/-- The degree of the best model, zero if there is none. -/
def bestDegree (s : Samples α) (most : ℕ) : ℕ :=
  (s.best? most).elim 0 Model.degree

variable {s : Samples α}

/-- Raised step by step, the degree comes to the highest one that is
supported. -/
theorem isGreatest_climb {degree : ℕ}
    (hreached : ∀ d, 1 ≤ d → d ≤ degree → (s.fit? d).isSome) (steps : ℕ) :
    IsGreatest (s.supported (degree + steps)) (s.climb degree steps) := by
  induction steps generalizing degree with
  | zero => exact ⟨⟨le_rfl, hreached⟩, fun d hd => hd.1⟩
  | succ steps ih =>
      rw [climb]
      split
      next hfound =>
        have hhigher : ∀ d, 1 ≤ d → d ≤ degree + 1 → (s.fit? d).isSome := by
          intro d hlow hhigh
          rcases Nat.lt_or_eq_of_le hhigh with hbelow | rfl
          · exact hreached d hlow (Nat.le_of_lt_succ hbelow)
          · exact hfound
        have hstep := ih hhigher
        rwa [Nat.add_assoc, Nat.add_comm 1 steps] at hstep
      next hmissing =>
        refine ⟨⟨Nat.le_add_right _ _, hreached⟩, fun d hd => ?_⟩
        by_contra! habove
        exact hmissing (hd.2 (degree + 1) (Nat.le_add_left _ _) habove)

theorem bestDegree_succ (s : Samples α) (most : ℕ) :
    s.bestDegree (most + 1) =
      if (s.fit? (most + 1)).isSome then most + 1 else s.bestDegree most := by
  rw [bestDegree, best?]
  cases s.fit? (most + 1) <;> rfl

/-- Lowered step by step, the degree comes to the highest one that is
supported. -/
theorem isGreatest_bestDegree
    (hfewer : ∀ d, 1 ≤ d → (s.fit? (d + 1)).isSome → (s.fit? d).isSome)
    (most : ℕ) :
    IsGreatest (s.supported most) (s.bestDegree most) := by
  induction most with
  | zero =>
      refine ⟨⟨le_rfl, fun d hlow hhigh => ?_⟩, fun d hd => hd.1⟩
      have hnone : s.bestDegree 0 = 0 := rfl
      omega
  | succ most ih =>
      rw [bestDegree_succ]
      split
      next hfound =>
        refine ⟨⟨le_rfl, fun d hlow hhigh => ?_⟩, fun d hd => hd.1⟩
        exact Nat.decreasingInduction'
          (fun k _ hbelow => hfewer k (hlow.trans hbelow)) hhigh hfound
      next hmissing =>
        refine ⟨⟨ih.1.1.trans most.le_succ, ih.1.2⟩,
          fun d hd => ih.2 ⟨?_, hd.2⟩⟩
        by_contra! habove
        exact hmissing (hd.2 (most + 1) (Nat.le_add_left _ _) habove)

end Climbing

theorem isSome_fit?_iff {s : Samples ℝ}
    (hsized : s.weights.length = s.times.length) (degree : ℕ) :
    (s.fit? degree).isSome ↔ Fit.Determines s.times s.weights (degree + 1) := by
  rw [isSome_fit?, Fit.isSome_basis?_iff hsized]

end Samples

theorem degree_of_estimate {α : Type} [Scalar α] {plan : Plan}
    {track : List (TrackPoint α)} {e : Estimator α}
    (hknown : estimate plan track = some e) :
    e.degree = (Samples.ofTrack plan.weighting e.time track).bestDegree
      (min plan.degree.val (track.length - 1)) := by
  obtain ⟨newest, rest, -, htime, ⟨m, hfound, rfl⟩ | ⟨hmissing, rfl⟩⟩ :=
    estimate_eq_some hknown
  · rw [Samples.bestDegree, htime, hfound]
    rfl
  · rw [Samples.bestDegree, htime, hmissing]
    rfl

theorem estimate_eq_none_iff {α : Type} [Scalar α] {plan : Plan}
    {track : List (TrackPoint α)} :
    estimate plan track = none ↔ track = [] := by
  cases track with
  | nil => simp [estimate]
  | cons newest rest => simp [estimate_cons]

theorem isGreatest_degree_of_estimate {plan : Plan}
    {track : List (TrackPoint ℝ)} {e : Estimator ℝ}
    (hknown : estimate plan track = some e) :
    let samples := Samples.ofTrack plan.weighting e.time track
    let most := min plan.degree.val (track.length - 1)
    ∃ degree : ℕ, e.degree = degree ∧
      IsGreatest (samples.supported most) degree ∧
      degree = samples.climb 0 most := by
  intro samples most
  have hsized : samples.weights.length = samples.times.length := by
    simp [samples]
  have hfewer : ∀ d, 1 ≤ d → (samples.fit? (d + 1)).isSome →
      (samples.fit? d).isSome := by
    intro d _ hfound
    rw [Samples.isSome_fit?_iff hsized] at hfound ⊢
    exact hfound.of_succ
  have hlowered := Samples.isGreatest_bestDegree hfewer most
  have hnothing : ∀ d, 1 ≤ d → d ≤ 0 → (samples.fit? d).isSome := by omega
  have hraised := Samples.isGreatest_climb hnothing most
  rw [Nat.zero_add] at hraised
  exact ⟨samples.bestDegree most, degree_of_estimate hknown, hlowered,
    hlowered.unique hraised⟩

end Regression

/-- The degree of a regression is the right one.  Whether a fit exists is
settled by the times and the weights: by the diagonal of any factorisation of
the weighted powers, of which there is one unless the powers are more than the
times.  With one coefficient less there is still a fit.  So the fits of both
axes exist together, and the degree that is found from the top is the highest
one up to which every degree has them, the same that is found from the
bottom. -/
theorem Strategy.degree_isGreatest :
    (∀ times weights : List ℝ, weights.length = times.length →
      ∀ count : ℕ, 1 ≤ count →
      (∀ data data', Fit.solveStretched? times data weights count = .ok none ↔
        Fit.solveStretched? times data' weights count = .ok none) ∧
      (∀ data, data.length = times.length →
        Fit.solveStretched? times data weights count =
          .ok (Fit.solve? times data weights count)) ∧
      (∀ data Q R, Fit.IsFactorisation (Fit.design times weights count) Q R →
        ((Fit.solve? times data weights count).isSome ↔
          ∀ j, Fit.tolerance ≤ |R j j|)) ∧
      (∀ data, times.length < count →
        Fit.solve? times data weights count = none) ∧
      (count ≤ times.length → ∃ Q R,
          Fit.IsFactorisation (Fit.design times weights count) Q R) ∧
      ∀ data data',
        Fit.solveStretched? times data weights (count + 1) ≠ .ok none →
        Fit.solveStretched? times data' weights count ≠ .ok none) ∧
    ∀ (plan : Regression.Plan) (history : History ℝ) (id : PointerId),
      let track := history.track id Regression.limits
      let most := min plan.degree.val (track.length - 1)
      ((ofTrack (.regression plan) history).estimate id = none ↔ track = []) ∧
      ∀ e, (ofTrack (.regression plan) history).estimate id = some e →
        let samples := Regression.Samples.ofTrack plan.weighting e.time track
        track.head?.map (·.time) = some e.time ∧
        (∀ degree,
          (Fit.solve? samples.times samples.xs samples.weights
              (degree + 1)).isSome =
            (Fit.solve? samples.times samples.ys samples.weights
              (degree + 1)).isSome) ∧
        ∃ degree : ℕ, e.degree = degree ∧
          IsGreatest (samples.supported most) degree ∧
          degree = samples.climb 0 most := by
  refine ⟨fun times weights hsized count hpositive => ⟨?_, ?_, ?_, ?_, ?_, ?_⟩,
    fun plan history id => ⟨Regression.estimate_eq_none_iff, ?_⟩⟩
  · intro data data'
    rw [Fit.solveStretched?_eq_ok_none_iff hsized hpositive,
      Fit.solveStretched?_eq_ok_none_iff hsized hpositive]
  · intro data hgiven
    exact Fit.solveStretched?_of_sized hsized hgiven hpositive
  · intro data Q R hf
    rw [Fit.isSome_solve?_iff hsized, hf.determines_iff hsized]
  · intro data hfew
    simp [Fit.solve?, Fit.basis?, hfew]
  · exact Fit.exists_isFactorisation _
  · intro data data' hfound hmissing
    rw [Fit.solveStretched?_eq_ok_none_iff_not_determines hsized
      hpositive] at hmissing
    rw [← Nat.cast_succ, Ne,
      Fit.solveStretched?_eq_ok_none_iff_not_determines hsized
      (Nat.le_add_left 1 count), not_not] at hfound
    exact hmissing hfound.of_succ
  · intro e hknown
    obtain ⟨newest, rest, hrecorded, htime, -⟩ :=
      Regression.estimate_eq_some hknown
    refine ⟨?_, fun degree => ?_,
      Regression.isGreatest_degree_of_estimate hknown⟩
    · calc (history.track id Regression.limits).head?.map (·.time)
          = (newest :: rest).head?.map (·.time) :=
            congrArg (·.head?.map (·.time)) hrecorded
        _ = some e.time := congrArg some htime.symm
    · rw [Bool.eq_iff_iff, Fit.isSome_solve?_iff (by simp),
        Fit.isSome_solve?_iff (by simp)]

/-- Two samples determine a line and nothing above, so a line is found below a
parabola. -/
theorem Strategy.degree_isGreatest_pair :
    (∀ data : List ℝ, (Fit.solve? [0, -1 / 10] data [1, 1] 2).isSome) ∧
    (∀ data : List ℝ,
        Fit.solveStretched? [0, -1 / 10] data [1, 1] 1 ≠ .ok none) ∧
    (∀ data : List ℝ, Fit.solve? [0, -1 / 10] data [1, 1] 3 = none) ∧
    ∃ e : Estimator ℝ,
      (ofTrack (.regression ⟨2, .none⟩) History.pair).estimate 5 = some e ∧
      e.degree = 1 := by
  obtain ⟨hsolved, htracked⟩ := Strategy.degree_isGreatest
  have hline : ∀ data : List ℝ,
      (Fit.solve? [0, -1 / 10] data [1, 1] 2).isSome := by
    intro data
    obtain ⟨-, -, hfactored, -⟩ := hsolved [0, -1 / 10] [1, 1] rfl 2 one_le_two
    exact (hfactored data _ _ Fit.isFactorisation_pair).mpr
      Fit.tolerance_le_diagonal_pair
  refine ⟨hline, fun data => ?_, fun data => ?_, ?_⟩
  · obtain ⟨-, hgiven, -⟩ := hsolved [0, -1 / 10] [1, 1] rfl 2 one_le_two
    obtain ⟨-, -, -, -, -, hfewer⟩ := hsolved [0, -1 / 10] [1, 1] rfl 1 le_rfl
    refine hfewer [0, 0] data fun hmissing => ?_
    have hfound := hline [0, 0]
    rw [Except.ok.inj ((hgiven [0, 0] rfl).symm.trans hmissing)] at hfound
    cases hfound
  · obtain ⟨-, -, -, hfew, -⟩ := hsolved [0, -1 / 10] [1, 1] rfl 3 (by norm_num)
    exact hfew data (by norm_num)
  · obtain ⟨hunknown, hknown⟩ := htracked ⟨2, .none⟩ History.pair 5
    have hrecorded :
        ¬(ofTrack (.regression ⟨2, .none⟩) History.pair).estimate 5 = none := by
      rw [hunknown, History.track_pair]
      exact List.cons_ne_nil _ _
    obtain ⟨e, hestimated⟩ := Option.ne_none_iff_exists'.mp hrecorded
    obtain ⟨htime, -, degree, hreported, ⟨⟨hlow, -⟩, hgreatest⟩, -⟩ :=
      hknown e hestimated
    have hnewest : e.time = 10000000 := by
      rw [History.track_pair] at htime
      exact (Option.some.inj htime).symm
    have hsupported : 1 ∈ (Regression.Samples.ofTrack .none e.time
        (History.pair.track 5 Regression.limits)).supported 1 := by
      refine ⟨le_rfl, fun d habove hbelow => ?_⟩
      obtain rfl : d = 1 := le_antisymm hbelow habove
      rw [Regression.Samples.isSome_fit?_iff (by simp), hnewest,
        Regression.samples_pair]
      exact ⟨_, _, Fit.isFactorisation_pair, Fit.tolerance_le_diagonal_pair⟩
    have hreached : 1 ≤ degree := hgreatest hsupported
    have hexact : degree = 1 := le_antisymm hlow hreached
    exact ⟨e, hestimated, by rw [hreported, hexact]; rfl⟩

end PointerMotion
