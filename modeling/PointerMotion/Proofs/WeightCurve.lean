/-
The weight of a sample as a curve: the point between a half and one that is
nearest to straight ramps in the gap or the age.
-/
import PointerMotion.Regression.Lemmas
import PointerMotion.Proofs.Exact
import Mathlib.Topology.MetricSpace.Lipschitz
import Mathlib.Topology.Order.ProjIcc

namespace PointerMotion

namespace Weighting

section Governing

variable {α : Type} [Scalar α]

/-- The number that governs the weight at a place: the gap to the next younger
sample, which the youngest has not, or the age. -/
def governing? (w : Weighting) (ages : List α) (i : ℕ) : Option α :=
  match w, i with
  | none, _ => .none
  | delta, 0 => .none
  | delta, i + 1 => Option.map₂ (· - ·) ages[i + 1]? ages[i]?
  | central, i => ages[i]?
  | recent, i => ages[i]?

/-- The weight as a function of the number that governs it. -/
def curve (w : Weighting) (q : α) : α :=
  match w with
  | none => 1.0
  | delta => ofGap q
  | central => ofCentralAge q
  | recent => ofRecentAge q

/-- The age in front of a place, where another one may come before all ages. -/
def ageBefore? (younger? : Option α) (ages : List α) (i : ℕ) : Option α :=
  match i with
  | 0 => younger?
  | i + 1 => ages[i]?

theorem getElem?_weightsBehind (w : Weighting) (younger? : Option α)
    (ages : List α) (i : ℕ) :
    (w.weightsBehind younger? ages)[i]? =
      ages[i]?.map (w.weight (ageBefore? younger? ages i)) := by
  induction ages generalizing younger? i with
  | nil => rfl
  | cons age rest ih =>
      cases i with
      | zero => rfl
      | succ i =>
          rw [weightsBehind, List.getElem?_cons_succ, List.getElem?_cons_succ,
            ih (some age) i]
          cases i <;> rfl

/-- A weight is on the curve at the number that governs it, and full where there
is none. -/
theorem getElem?_weights (w : Weighting) {ages : List α} {i : ℕ}
    (hinside : i < ages.length) :
    (w.weights ages)[i]? = some ((w.governing? ages i).elim 1.0 w.curve) := by
  have hage : ages[i]? = some ages[i] := List.getElem?_eq_getElem hinside
  rw [weights, getElem?_weightsBehind, hage, Option.map_some]
  cases w with
  | none => rfl
  | delta =>
      cases i with
      | zero => rfl
      | succ i =>
          have hyounger : ages[i]? = some ages[i] :=
            List.getElem?_eq_getElem (i.lt_succ_self.trans hinside)
          rw [governing?, ageBefore?, hage, hyounger]
          rfl
  | central =>
      rw [governing?, hage]
      rfl
  | recent =>
      rw [governing?, hage]
      rfl

end Governing

/-- The weight nearest to a number. -/
noncomputable def nearest (x : ℝ) : Set.Icc (0.5 : ℝ) 1.0 :=
  Set.projIcc 0.5 1.0 (by norm_num) x

section Nearest

variable {x y : ℝ}

theorem nearest_of_le (h : x ≤ 0.5) : (nearest x : ℝ) = 0.5 :=
  congrArg Subtype.val (Set.projIcc_of_le_left _ h)

theorem nearest_of_ge (h : 1.0 ≤ x) : (nearest x : ℝ) = 1.0 :=
  congrArg Subtype.val (Set.projIcc_of_right_le _ h)

theorem nearest_of_between (hlow : 0.5 ≤ x) (hhigh : x ≤ 1.0) :
    (nearest x : ℝ) = x :=
  congrArg Subtype.val (Set.projIcc_of_mem _ ⟨hlow, hhigh⟩)

theorem nearest_le_nearest (h : x ≤ y) : (nearest x : ℝ) ≤ nearest y :=
  Set.monotone_projIcc _ h

theorem abs_nearest_sub_nearest_le (x y : ℝ) :
    |(nearest x : ℝ) - nearest y| ≤ |x - y| := by
  have hprojection : dist (nearest x) (nearest y) ≤ 1 * dist x y :=
    (LipschitzWith.projIcc _).dist_le_mul x y
  rwa [one_mul, Subtype.dist_eq, Real.dist_eq, Real.dist_eq] at hprojection

end Nearest

/-- The straight ramps of a policy, which go on below a half and above one. -/
noncomputable def ramp (w : Weighting) (q : ℝ) : ℝ :=
  match w with
  | none => 1.0
  | delta => 0.5 + q * 0.05
  | central => min (0.5 + q * 0.05) (0.5 + (60.0 - q) * 0.05)
  | recent => 0.5 + (100.0 - q) * 0.01

theorem ofGap_eq_nearest (gap : ℝ) : ofGap gap = nearest (ramp delta gap) := by
  simp only [ofGap, ramp, Scalar.less, decide_eq_true_eq]
  split_ifs with hnegative hshort
  · rw [nearest_of_le (by linarith)]
  · rw [nearest_of_between (by linarith) (by linarith)]
  · rw [nearest_of_ge (by linarith)]

theorem ofCentralAge_eq_nearest (age : ℝ) :
    ofCentralAge age = nearest (ramp central age) := by
  simp only [ofCentralAge, ramp, Scalar.less, decide_eq_true_eq]
  -- the ramps cross at thirty, above one, so that each is the lower one where
  -- it counts
  split_ifs with hnegative hyoung hmiddle hold
  · rw [nearest_of_le ((min_le_left _ _).trans (by linarith))]
  · rw [min_eq_left (by linarith),
      nearest_of_between (by linarith) (by linarith)]
  · rw [nearest_of_ge (le_min (by linarith) (by linarith))]
  · rw [min_eq_right (by linarith),
      nearest_of_between (by linarith) (by linarith)]
  · rw [nearest_of_le ((min_le_right _ _).trans (by linarith))]

theorem ofRecentAge_eq_nearest (age : ℝ) :
    ofRecentAge age = nearest (ramp recent age) := by
  simp only [ofRecentAge, ramp, Scalar.less, decide_eq_true_eq]
  split_ifs with hyoung hold
  · rw [nearest_of_ge (by linarith)]
  · rw [nearest_of_between (by linarith) (by linarith)]
  · rw [nearest_of_le (by linarith)]

/-- A policy's curve is its ramps, kept between a half and one. -/
theorem curve_eq_nearest (w : Weighting) (q : ℝ) :
    w.curve q = nearest (w.ramp q) := by
  cases w with
  | none => exact (nearest_of_ge le_rfl).symm
  | delta => exact ofGap_eq_nearest q
  | central => exact ofCentralAge_eq_nearest q
  | recent => exact ofRecentAge_eq_nearest q

theorem curve_between (w : Weighting) (q : ℝ) :
    0.5 ≤ w.curve q ∧ w.curve q ≤ 1.0 := by
  rw [curve_eq_nearest]
  exact (nearest (w.ramp q)).2

/-- No ramp is steeper than a twentieth per millisecond. -/
theorem abs_ramp_sub_ramp_le (w : Weighting) (p q : ℝ) :
    |w.ramp p - w.ramp q| ≤ 0.05 * |p - q| := by
  have hstraight : ∀ slope change : ℝ, change = slope * (p - q) →
      |slope| ≤ 0.05 →
      |change| ≤ 0.05 * |p - q| := by
    intro slope change hchange hslope
    rw [hchange, abs_mul]
    exact mul_le_mul_of_nonneg_right hslope (abs_nonneg _)
  have hrising : |0.5 + p * 0.05 - (0.5 + q * 0.05)| ≤ 0.05 * |p - q| :=
    hstraight 0.05 _ (by linarith) (by norm_num)
  cases w with
  | none => exact hstraight 0 _ (by simp only [ramp]; linarith) (by norm_num)
  | delta => exact hrising
  | central =>
      have hfalling : |0.5 + (60.0 - p) * 0.05 - (0.5 + (60.0 - q) * 0.05)| ≤
          0.05 * |p - q| :=
        hstraight (-0.05) _ (by linarith) (by norm_num)
      exact (abs_min_sub_min_le_max _ _ _ _).trans (max_le hrising hfalling)
  | recent =>
      exact hstraight (-0.01) _ (by simp only [ramp]; linarith) (by norm_num)

/-- Keeping ramps between a half and one makes nothing steeper. -/
theorem abs_curve_sub_curve_le (w : Weighting) (p q : ℝ) :
    |w.curve p - w.curve q| ≤ 0.05 * |p - q| := by
  rw [curve_eq_nearest, curve_eq_nearest]
  exact (abs_nearest_sub_nearest_le _ _).trans (w.abs_ramp_sub_ramp_le p q)

/-- A change that is bounded by the way along the curve leaves no room for a
jump. -/
theorem continuous_curve (w : Weighting) : Continuous (w.curve : ℝ → ℝ) := by
  have hlipschitz : LipschitzWith (Real.toNNReal 0.05) (w.curve : ℝ → ℝ) := by
    apply LipschitzWith.of_dist_le'
    intro p q
    rw [Real.dist_eq, Real.dist_eq]
    exact w.abs_curve_sub_curve_le p q
  exact hlipschitz.continuous

/-- Where the ramps are higher, so is the curve. -/
theorem curve_le_curve {w : Weighting} {p q : ℝ} (h : w.ramp p ≤ w.ramp q) :
    w.curve p ≤ w.curve q := by
  rw [curve_eq_nearest, curve_eq_nearest]
  exact nearest_le_nearest h

theorem monotone_curve_delta : Monotone (curve delta : ℝ → ℝ) := by
  intro p q hle
  apply curve_le_curve
  simp only [ramp]
  linarith

theorem antitone_curve_recent : Antitone (curve recent : ℝ → ℝ) := by
  intro p q hle
  apply curve_le_curve
  simp only [ramp]
  linarith

theorem ramp_central_of_le {age : ℝ} (h : age ≤ 30) :
    ramp central age = 0.5 + age * 0.05 := by
  rw [ramp, min_eq_left (by linarith)]

theorem ramp_central_of_ge {age : ℝ} (h : 30 ≤ age) :
    ramp central age = 0.5 + (60.0 - age) * 0.05 := by
  rw [ramp, min_eq_right (by linarith)]

theorem monotoneOn_curve_central :
    MonotoneOn (curve central : ℝ → ℝ) (Set.Iic 30) := by
  intro p hp q hq hle
  apply curve_le_curve
  rw [ramp_central_of_le hp, ramp_central_of_le hq]
  linarith

theorem antitoneOn_curve_central :
    AntitoneOn (curve central : ℝ → ℝ) (Set.Ici 30) := by
  intro p hp q hq hle
  apply curve_le_curve
  rw [ramp_central_of_ge hp, ramp_central_of_ge hq]
  linarith

theorem curve_central_of_mem {age : ℝ} (h : age ∈ Set.Icc 10 50) :
    curve central age = 1.0 := by
  have hrisen : 1.0 ≤ 0.5 + age * 0.05 := by linarith [h.1]
  have hnotFallen : 1.0 ≤ 0.5 + (60.0 - age) * 0.05 := by linarith [h.2]
  rw [curve_eq_nearest, ramp, nearest_of_ge (le_min hrisen hnotFallen)]

/-- Every weight lies between a half and one and is on its policy's curve, at
the gap or the age that governs it, or is one where nothing does.  The curve is
straight ramps kept between a half and one.  It changes by no more than a
twentieth per millisecond and nowhere jumps.  It never falls when the gap grows,
and where the young count fully never rises with the age; where the middle ages
do it never falls up to ten milliseconds, is one from there to fifty and never
rises behind. -/
theorem weights_on_curve (w : Weighting) (ages : List ℝ) {i : ℕ}
    (hinside : i < ages.length) :
    (∃ x, (w.weights ages)[i]? = some x ∧ 0.5 ≤ x ∧ x ≤ 1.0 ∧
        x = (w.governing? ages i).elim 1.0 w.curve) ∧
      (∀ q, w.curve q = max 0.5 (min 1.0 (w.ramp q))) ∧
      (∀ p q : ℝ, |w.curve p - w.curve q| ≤ 0.05 * |p - q|) ∧
      Continuous (w.curve : ℝ → ℝ) ∧
      Monotone (curve delta : ℝ → ℝ) ∧
      Antitone (curve recent : ℝ → ℝ) ∧
      MonotoneOn (curve central : ℝ → ℝ) (Set.Iic 10) ∧
      (∀ age ∈ Set.Icc (10 : ℝ) 50, curve central age = 1.0) ∧
      AntitoneOn (curve central : ℝ → ℝ) (Set.Ici 50) := by
  have hbetween : 0.5 ≤ (w.governing? ages i).elim 1.0 w.curve ∧
      (w.governing? ages i).elim 1.0 w.curve ≤ 1.0 := by
    cases w.governing? ages i with
    | none => exact ⟨by norm_num, le_rfl⟩
    | some q => exact w.curve_between q
  have hten : Set.Iic (10 : ℝ) ⊆ Set.Iic 30 :=
    Set.Iic_subset_Iic.mpr (by norm_num)
  have hfifty : Set.Ici (50 : ℝ) ⊆ Set.Ici 30 :=
    Set.Ici_subset_Ici.mpr (by norm_num)
  exact ⟨⟨_, w.getElem?_weights hinside, hbetween.1, hbetween.2, rfl⟩,
    w.curve_eq_nearest,
    w.abs_curve_sub_curve_le, w.continuous_curve, monotone_curve_delta,
    antitone_curve_recent,
    monotoneOn_curve_central.mono hten, fun _ => curve_central_of_mem,
    antitoneOn_curve_central.mono hfifty⟩

/-- A sample four milliseconds behind the next younger one counts by seven
tenths. -/
theorem weights_on_curve_crowded :
    1 < ([0, 4, 30, 90] : List ℝ).length ∧
      (delta.weights ([0, 4, 30, 90] : List ℝ))[1]? = some (0.7 : ℝ) ∧
      ∀ gap : ℝ, |curve delta gap - 0.7| ≤ 0.05 * |gap - 4| := by
  have hinside : 1 < ([0, 4, 30, 90] : List ℝ).length := by decide
  obtain ⟨⟨x, hweight, -, -, hcurve⟩, hramp, hchange, -⟩ :=
    weights_on_curve delta [0, 4, 30, 90] hinside
  have hgap : governing? delta ([0, 4, 30, 90] : List ℝ) 1 = some (4 - 0) := rfl
  have hvalue : curve delta (4 : ℝ) = 0.7 := by
    rw [hramp, ramp]
    norm_num
  have hx : x = 0.7 := by rw [hcurve, hgap, Option.elim_some, sub_zero, hvalue]
  refine ⟨hinside, by rw [hweight, hx], ?_⟩
  intro gap
  rw [← hvalue]
  exact hchange gap 4

end Weighting

end PointerMotion
