/-
What a regression makes of a track: as many weights and times as samples, and
the highest degree that has fits of both axes.
-/
import PointerMotion.Regression

namespace PointerMotion

variable {α : Type} [Scalar α]

namespace Weighting

theorem length_weightsBehind (w : Weighting) (younger? : Option α)
    (ages : List α) :
    (w.weightsBehind younger? ages).length = ages.length := by
  induction ages generalizing younger? with
  | nil => rfl
  | cons age rest ih => simp [weightsBehind, ih]

@[simp] theorem length_weights (w : Weighting) (ages : List α) :
    (w.weights ages).length = ages.length :=
  w.length_weightsBehind .none ages

end Weighting

namespace Fit

theorem length_addMultiple_le (xs : List α) (factor : α) (ys : List α) :
    (addMultiple xs factor ys).length ≤ xs.length := by
  rw [addMultiple, List.length_zipWith]
  exact Nat.min_le_left _ _

theorem length_foldl_project_le (basis : List (Column α)) (p : Progress α) :
    (basis.foldl Progress.project p).coefficients.length ≤
      p.coefficients.length := by
  induction basis generalizing p with
  | nil => exact Nat.le_refl _
  | cons c rest ih =>
      exact Nat.le_trans (ih (p.project c)) (length_addMultiple_le _ _ _)

/-- A fit has no more coefficients than were asked for. -/
theorem length_of_solve? {times data weights : List α} {count : Nat}
    {s : Solution α} (h : solve? times data weights count = some s) :
    s.coefficients.length ≤ count := by
  obtain ⟨basis, -, rfl⟩ := Option.map_eq_some_iff.mp h
  exact Nat.le_trans (length_foldl_project_le basis _)
    (Nat.le_of_eq List.length_replicate)

end Fit

namespace Regression

@[simp] theorem length_ages (newest : Int) (track : List (TrackPoint α)) :
    (ages newest track).length = track.length :=
  List.length_map _

namespace Samples

@[simp] theorem length_times (weighting : Weighting) (newest : Int)
    (track : List (TrackPoint α)) :
    (ofTrack weighting newest track).times.length = track.length := by
  simp [ofTrack]

@[simp] theorem length_weights (weighting : Weighting) (newest : Int)
    (track : List (TrackPoint α)) :
    (ofTrack weighting newest track).weights.length = track.length := by
  simp [ofTrack]

variable {s : Samples α}

/-- The fits of both axes exist together, whatever the data are. -/
theorem isSome_fit? (s : Samples α) (degree : Nat) :
    (s.fit? degree).isSome =
      (Fit.basis? s.times s.weights (degree + 1)).isSome := by
  rw [fit?, Fit.solve?, Fit.solve?]
  cases Fit.basis? s.times s.weights (degree + 1) <;> rfl

/-- The degree of the best model depends on the times and the weights alone. -/
theorem degree_best?_congr {s s' : Samples α} (htimes : s'.times = s.times)
    (hweights : s'.weights = s.weights) (most : Nat) :
    (s'.best? most).map Model.degree = (s.best? most).map Model.degree := by
  induction most with
  | zero => rfl
  | succ degree ih =>
      have htogether : (s'.fit? (degree + 1)).isSome =
          (s.fit? (degree + 1)).isSome := by
        rw [isSome_fit?, isSome_fit?, htimes, hweights]
      simp only [best?]
      cases hfound : s.fit? (degree + 1) with
      | none =>
          rw [hfound, Option.isSome_none, Option.isSome_eq_false_iff,
            Option.isNone_iff_eq_none]
            at htogether
          rw [htogether]
          exact ih
      | some fits =>
          rw [hfound, Option.isSome_some, Option.isSome_iff_exists] at htogether
          obtain ⟨fits', hfound'⟩ := htogether
          rw [hfound']
          rfl

theorem fit?_eq_some {degree : Nat} {x y : Fit.Solution α}
    (h : s.fit? degree = some (x, y)) :
    Fit.solve? s.times s.xs s.weights (degree + 1) = some x
      ∧ Fit.solve? s.times s.ys s.weights (degree + 1) = some y := by
  simp only [fit?] at h
  cases hx : Fit.solve? s.times s.xs s.weights (degree + 1) with
  | none => simp [hx] at h
  | some x' =>
      simp only [hx, Option.map_eq_some_iff] at h
      obtain ⟨y', hy, hsame⟩ := h
      obtain ⟨rfl, rfl⟩ := Prod.mk.inj hsame
      exact ⟨rfl, hy⟩

/-- The degree is lowered until there are fits of both axes. -/
theorem best?_eq_some {most : Nat} {m : Model α} (h : s.best? most = some m) :
    1 ≤ m.degree ∧ m.degree ≤ most ∧ s.fit? m.degree = some (m.x, m.y) := by
  induction most with
  | zero => simp [best?] at h
  | succ degree ih =>
      simp only [best?] at h
      split at h
      · rename_i hfit
        cases h
        exact ⟨Nat.le_add_left 1 degree, Nat.le_refl _, hfit⟩
      · obtain ⟨hlow, hhigh, hfit⟩ := ih h
        exact ⟨hlow, Nat.le_succ_of_le hhigh, hfit⟩

/-- The best model has no more coefficients than its degree calls for. -/
theorem length_coefficients_of_best? {most : Nat} {m : Model α}
    (h : s.best? most = some m) :
    m.x.coefficients.length ≤ m.degree + 1 ∧
      m.y.coefficients.length ≤ m.degree + 1 := by
  obtain ⟨-, -, hfit⟩ := best?_eq_some h
  obtain ⟨hx, hy⟩ := fit?_eq_some hfit
  exact ⟨Fit.length_of_solve? hx, Fit.length_of_solve? hy⟩

theorem fit?_of_solve? {degree : Nat} {x y : Fit.Solution α}
    (hfitX : Fit.solve? s.times s.xs s.weights (degree + 1) = some x)
    (hfitY : Fit.solve? s.times s.ys s.weights (degree + 1) = some y) :
    s.fit? degree = some (x, y) := by
  rw [fit?, hfitX, hfitY]
  rfl

/-- The degree is not lowered past one that has fits of both axes. -/
theorem exists_best?_of_fit? {degree most : Nat} (hlow : 1 ≤ degree)
    (hhigh : degree ≤ most) {fits : Fit.Solution α × Fit.Solution α}
    (hfound : s.fit? degree = some fits) :
    ∃ m, s.best? most = some m ∧ degree ≤ m.degree := by
  induction most with
  | zero => exact absurd hlow (Nat.not_le.mpr (Nat.lt_succ_of_le hhigh))
  | succ most ih =>
      simp only [best?]
      split
      · exact ⟨_, rfl, hhigh⟩
      · rename_i hmissing
        rcases Nat.eq_or_lt_of_le hhigh with rfl | hlower
        · rw [hfound] at hmissing
          cases hmissing
        · exact ih (Nat.le_of_lt_succ hlower)

end Samples

/-- The estimate of a track is the best model of its samples if there is one. -/
theorem estimate_cons (plan : Plan) (newest : TrackPoint α)
    (rest : List (TrackPoint α)) :
    estimate plan (newest :: rest) =
      some (((Samples.ofTrack plan.weighting newest.time (newest :: rest)).best?
        (min plan.degree.val rest.length)).elim (standing newest)
          (·.estimator newest.time)) := by
  simp only [estimate, List.length_cons, Nat.add_sub_cancel]
  split
  next model hmodel => rw [hmodel]; rfl
  next hnone => rw [hnone]; rfl

/-- An estimate is the best model of the samples, or that of a pointer that
stands. -/
theorem estimate_eq_some {plan : Plan} {track : List (TrackPoint α)}
    {e : Estimator α} (hknown : estimate plan track = some e) :
    ∃ newest rest, track = newest :: rest ∧ e.time = newest.time ∧
      let best? := (Samples.ofTrack plan.weighting newest.time track).best?
        (min plan.degree.val (track.length - 1))
      (∃ m, best? = some m ∧ e = m.estimator newest.time)
        ∨ best? = none ∧ e = standing newest := by
  cases track with
  | nil => cases hknown
  | cons newest rest =>
      simp only [estimate] at hknown
      split at hknown
      · rename_i m hfound
        cases hknown
        exact ⟨newest, rest, rfl, rfl, .inl ⟨m, hfound, rfl⟩⟩
      · rename_i hmissing
        cases hknown
        exact ⟨newest, rest, rfl, rfl, .inr ⟨hmissing, rfl⟩⟩

end Regression

end PointerMotion
