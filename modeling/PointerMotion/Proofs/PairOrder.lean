/-
How the weights of an average compare: they are positive, they never fall from
the oldest pair to the newest, and together they are one.
-/
import PointerMotion.Proofs.PairWeights

namespace PointerMotion

namespace Average

/-- The durations of the pairs of a track, from the times of its points, newest
first. -/
def durationsOf (times : List ℤ) : List ℤ :=
  match times.reverse with
  | [] => []
  | oldest :: later => (later.map (· - oldest)).filter (minDuration ≤ ·)

/-- What each pair of a track weighs, the oldest first, from the times of its
points. -/
noncomputable def weightsOf (times : List ℤ) : List ℝ :=
  weights 0 (durationsOf times)

theorem map_duration_pairsOf {α : Type} [Scalar α] (coordinate : Position α → α)
    (track : List (TrackPoint α)) :
    (pairsOf coordinate track).map Pair.duration =
      durationsOf (track.map TrackPoint.time) := by
  rw [pairsOf, durationsOf, ← List.map_reverse]
  cases track.reverse with
  | nil => rfl
  | cons oldest later =>
      simp only [List.map_cons, pairs, partners, List.map_map, List.filter_map]
      rfl

section Durations

variable {times : List ℤ} {d : ℤ}

theorem pos_of_mem_durationsOf (h : d ∈ durationsOf times) : 0 < d := by
  rw [durationsOf] at h
  split at h
  · cases h
  · have hfar : minDuration ≤ d := of_decide_eq_true (List.mem_filter.mp h).2
    have hpositive : 0 < minDuration := by decide
    exact hpositive.trans_le hfar

/-- Where the times fall from the newest point back, no pair is shorter than the
one before it. -/
theorem pairwise_durationsOf (h : times.Pairwise (· ≥ ·)) :
    (durationsOf times).Pairwise (· ≤ ·) := by
  have hrising : times.reverse.Pairwise (· ≤ ·) := List.pairwise_reverse.mpr h
  rw [durationsOf]
  split
  · exact .nil
  next oldest later hreverse =>
    rw [hreverse, List.pairwise_cons] at hrising
    apply List.Pairwise.filter
    apply hrising.2.map
    intro a b hle
    exact sub_le_sub_right hle oldest

end Durations

section Weights

variable {last : ℤ} {durations : List ℤ}

@[simp] theorem length_weights (last : ℤ) (durations : List ℤ) :
    (weights last durations).length = durations.length := by
  induction durations generalizing last with
  | nil => rfl
  | cons d rest ih => rw [weights, List.length_cons, ih, List.length_cons]

theorem kept_pos (hlast : 0 < last) (hpositive : ∀ d ∈ durations, 0 < d) :
    0 < kept last durations := by
  induction durations generalizing last with
  | nil => exact one_pos
  | cons d rest ih =>
      rw [List.forall_mem_cons] at hpositive
      have hshare : (0 : ℝ) < last / (d + last) := by
        have hd := hpositive.1
        positivity
      exact mul_pos hshare (ih hpositive.1 hpositive.2)

theorem weights_pos (hlast : 0 ≤ last) (hpositive : ∀ d ∈ durations, 0 < d) :
    ∀ w ∈ weights last durations, 0 < w := by
  induction durations generalizing last with
  | nil => exact fun w hw => absurd hw List.not_mem_nil
  | cons d rest ih =>
      rw [List.forall_mem_cons] at hpositive
      rw [weights, List.forall_mem_cons]
      have hshare : (0 : ℝ) < d / (d + last) := by
        have hd := hpositive.1
        positivity
      exact ⟨mul_pos hshare (kept_pos hpositive.1 hpositive.2),
        ih hpositive.1.le hpositive.2⟩

/-- The weights of added pairs make up for what is lost of the average before
them. -/
theorem sum_weights (hlast : 0 ≤ last) (hpositive : ∀ d ∈ durations, 0 < d) :
    (weights last durations).sum = 1 - kept last durations := by
  induction durations generalizing last with
  | nil => rw [weights, kept, List.sum_nil, sub_self]
  | cons d rest ih =>
      rw [List.forall_mem_cons] at hpositive
      have hwhole : (d : ℝ) + last ≠ 0 := by
        have hd := hpositive.1
        positivity
      have hshares : (d : ℝ) / (d + last) + last / (d + last) = 1 := by
        rw [← add_div, div_self hwhole]
      rw [weights, kept, List.sum_cons, ih hpositive.1.le hpositive.2]
      linear_combination kept d rest * hshares

/-- From rest nothing is lost, so that the weights together are one. -/
theorem sum_weights_zero (hpositive : ∀ d ∈ durations, 0 < d)
    (hsome : durations ≠ []) :
    (weights 0 durations).sum = 1 := by
  have hnothing : kept 0 durations = 0 := by
    cases durations with
    | nil => exact absurd rfl hsome
    | cons d rest => rw [kept, Int.cast_zero, zero_div, zero_mul]
  rw [sum_weights le_rfl hpositive, hnothing, sub_zero]

/-- Of two neighbouring pairs the later weighs at least as much as the
earlier. -/
theorem isChain_weights (hlast : 0 ≤ last) (hpositive : ∀ d ∈ durations, 0 < d)
    (hrising : durations.IsChain (· ≤ ·)) :
    (weights last durations).IsChain (· ≤ ·) := by
  induction durations generalizing last with
  | nil => exact .nil
  | cons d rest ih =>
      cases rest with
      | nil => exact .singleton _
      | cons e rest =>
          obtain ⟨hle, hrest⟩ := List.isChain_cons_cons.mp hrising
          rw [List.forall_mem_cons, List.forall_mem_cons] at hpositive
          obtain ⟨hd, he, hothers⟩ := hpositive
          have hshare : (d : ℝ) / (d + last) ≤ 1 := by
            rw [div_le_one (by positivity)]
            exact le_add_of_nonneg_right (Int.cast_nonneg hlast)
          -- the earlier pair keeps at most the share that the later one leaves
          -- to it
          have hleft : (d : ℝ) / (d + last) * (d / (e + d) * kept e rest) ≤
              e / (e + d) * kept e rest := by
            have hkept : 0 < kept e rest := kept_pos he hothers
            have hways : (d : ℝ) / (e + d) ≤ e / (e + d) := by gcongr
            calc (d : ℝ) / (d + last) * (d / (e + d) * kept e rest)
                ≤ 1 * (d / (e + d) * kept e rest) := by gcongr
              _ = d / (e + d) * kept e rest := one_mul _
              _ ≤ e / (e + d) * kept e rest := by gcongr
          exact .cons_cons hleft
            (ih hd.le (List.forall_mem_cons.mpr ⟨he, hothers⟩) hrest)

/-- The newest pair weighs at least one half. -/
theorem half_le_getLast_weights (hlast : 0 ≤ last)
    (hpositive : ∀ d ∈ durations, 0 < d)
    (hrising : (last :: durations).IsChain (· ≤ ·)) {w : ℝ}
    (hw : (weights last durations).getLast? = some w) : 1 / 2 ≤ w := by
  induction durations generalizing last with
  | nil => cases hw
  | cons d rest ih =>
      obtain ⟨hle, hrest⟩ := List.isChain_cons_cons.mp hrising
      rw [List.forall_mem_cons] at hpositive
      cases rest with
      | nil =>
          have hnewest : d / (d + last) * 1 = w := Option.some.inj hw
          have hd : (0 : ℝ) < d := Int.cast_pos.mpr hpositive.1
          have hle' : (last : ℝ) ≤ d := Int.cast_le.mpr hle
          rw [← hnewest, mul_one, div_le_div_iff₀ two_pos (by positivity)]
          linarith
      | cons e rest =>
          rw [weights, weights, List.getLast?_cons_cons] at hw
          exact ih hpositive.1.le hpositive.2 hrest hw

/-- Shares of a whole, the oldest first, of which older ones never count more
than newer ones. -/
structure FavoursNewer (weights : List ℝ) : Prop where
  pos : ∀ w ∈ weights, 0 < w
  sum_eq : weights.sum = 1
  rising : weights.Pairwise (· ≤ ·)
  half_le : ∃ newest, weights.getLast? = some newest ∧ 1 / 2 ≤ newest

theorem favoursNewer_weights (hpositive : ∀ d ∈ durations, 0 < d)
    (hrising : durations.Pairwise (· ≤ ·)) (hsome : durations ≠ []) :
    FavoursNewer (weights 0 durations) where
  pos := weights_pos le_rfl hpositive
  sum_eq := sum_weights_zero hpositive hsome
  rising := List.isChain_iff_pairwise.mp
    (isChain_weights le_rfl hpositive hrising.isChain)
  half_le := by
    have hfrom : (0 :: durations).IsChain (· ≤ ·) :=
      (List.pairwise_cons.mpr ⟨fun d hd => (hpositive d hd).le,
        hrising⟩).isChain
    have hlast : weights 0 durations ≠ [] := by
      rwa [← List.length_pos_iff, length_weights, List.length_pos_iff]
    have hnewest := List.getLast?_eq_some_getLast hlast
    exact ⟨_, hnewest, half_le_getLast_weights le_rfl hpositive hfrom hnewest⟩

end Weights

/-- A mean of velocities lies between the least and the greatest of them. -/
theorem FavoursNewer.between {weights velocities : List ℝ}
    (h : FavoursNewer weights) (hlength : velocities.length = weights.length) :
    (∃ v ∈ velocities, v ≤ (List.zipWith (· * ·) weights velocities).sum) ∧
      ∃ v ∈ velocities, (List.zipWith (· * ·) weights velocities).sum ≤ v := by
  set mean := (List.zipWith (· * ·) weights velocities).sum with hmean
  have hsome : weights.zip velocities ≠ [] := by
    obtain ⟨newest, hnewest, -⟩ := h.half_le
    have hlong : 0 < weights.length :=
      List.length_pos_of_mem (List.mem_of_getLast? hnewest)
    rw [← List.length_pos_iff, List.length_zip, hlength, min_self]
    exact hlong
  have hweighted :
      ((weights.zip velocities).map fun p => p.1 * p.2).sum = mean := by
    rw [hmean, List.zip, List.map_zipWith]
  have hconstant :
      ((weights.zip velocities).map fun p => p.1 * mean).sum = mean := by
    rw [List.sum_map_mul_right, List.map_fst_zip hlength.ge, h.sum_eq, one_mul]
  -- were all velocities on one side of the mean, then so would the mean be
  constructor
  · by_contra! habove
    have hless := List.sum_lt_sum_of_ne_nil hsome (fun p => p.1 * mean)
      (fun p => p.1 * p.2)
      fun p hp => mul_lt_mul_of_pos_left (habove p.2 (List.of_mem_zip hp).2)
        (h.pos p.1 (List.of_mem_zip hp).1)
    rw [hweighted, hconstant] at hless
    exact lt_irrefl _ hless
  · by_contra! hbelow
    have hless := List.sum_lt_sum_of_ne_nil hsome (fun p => p.1 * p.2)
      (fun p => p.1 * mean)
      fun p hp => mul_lt_mul_of_pos_left (hbelow p.2 (List.of_mem_zip hp).2)
        (h.pos p.1 (List.of_mem_zip hp).1)
    rw [hweighted, hconstant] at hless
    exact lt_irrefl _ hless

/-- An estimate of motion has a pair to make it from. -/
theorem durationsOf_ne_nil_of_estimate {α : Type} [Scalar α]
    {track : List (TrackPoint α)} {e : Estimator α}
    (hknown : estimate track = some e) (hmoving : 1 ≤ e.degree) :
    durationsOf (track.map TrackPoint.time) ≠ [] := by
  cases track with
  | nil => cases hknown
  | cons newest rest =>
      obtain ⟨oldest, later, hreverse⟩ :=
        List.exists_cons_of_ne_nil
          (List.reverse_ne_nil_iff.mpr (List.cons_ne_nil newest rest))
      rw [estimate_of_reverse hreverse] at hknown
      split at hknown
      · cases hknown
        cases hmoving
      next hpairs =>
        rw [← map_duration_pairsOf Position.x, pairsOf, hreverse]
        simpa [pairs] using hpairs

end Average

/-- Along a track the times never rise from the newest point back. -/
theorem History.pairwise_time_track {α : Type} (h : History α) (id : PointerId)
    (limits : TrackLimits) :
    ((h.track id limits).map TrackPoint.time).Pairwise (· ≥ ·) := by
  rw [History.track_eq_cut_streak, ← List.isChain_iff_pairwise,
    List.isChain_map]
  exact (limits.isChain_cut _).imp fun _ _ hfollows =>
    TrackLimits.le_of_follows hfollows

namespace Strategy

/-- The velocity that an average reports is a mean of the pair velocities of its
track.  The weights come from the times alone and are the same on both axes.
None is less than the one before it and the newest is at least one half, so the
velocity lies between two pair velocities. -/
theorem c1_estimate_between_pairs (history : History ℝ) (id : PointerId)
    (e : Estimator ℝ) (hknown : (ofTrack .average history).estimate id = some e)
    (hmoving : e.degree = 1) :
    let track := history.track id Average.limits
    let weights := Average.weightsOf (track.map TrackPoint.time)
    Average.FavoursNewer weights ∧
      ∀ c : Coordinate,
        let velocities :=
          (Average.pairsOf (fun p => p.along c) track).map Average.Pair.velocity
        velocities.length = weights.length ∧
          (e.along c).c1 = (List.zipWith (· * ·) weights velocities).sum ∧
          (∃ v ∈ velocities, v ≤ (e.along c).c1) ∧ ∃ v ∈ velocities,
          (e.along c).c1 ≤ v := by
  intro track weights
  have hestimate : Average.estimate track = some e := hknown
  have hweights : Average.FavoursNewer weights :=
    Average.favoursNewer_weights (fun d hd => Average.pos_of_mem_durationsOf hd)
      (Average.pairwise_durationsOf
          (history.pairwise_time_track id Average.limits))
      (Average.durationsOf_ne_nil_of_estimate hestimate hmoving.ge)
  refine ⟨hweights, ?_⟩
  intro c velocities
  have hdurations :
      (Average.pairsOf (fun p => p.along c) track).map Average.Pair.duration =
      Average.durationsOf (track.map TrackPoint.time) :=
        Average.map_duration_pairsOf _ track
  have hlength : velocities.length = weights.length := by
    simp only [velocities, weights, Average.weightsOf, Average.length_weights,
      ← hdurations, List.length_map]
  have hvelocity :
      (e.along c).c1 = (List.zipWith (· * ·) weights velocities).sum := by
    rw [Average.c1_of_estimate hestimate hmoving.ge c,
      Average.velocity_through_start, hdurations]
    rfl
  rw [hvelocity]
  exact ⟨hlength, rfl, hweights.between hlength⟩

/-- The leap at the end weighs three fifths, more than either time of rest
before it. -/
theorem c1_estimate_between_leapt :
    ∃ e, (ofTrack .average leapt).estimate 1 = some e ∧ e.degree = 1 ∧
      Average.weightsOf ((leapt.track 1 Average.limits).map TrackPoint.time) =
        [2 / 15, 4 / 15, 3 / 5] ∧
      0 ≤ (e.along .x).c1 ∧ (e.along .x).c1 ≤ 1000 := by
  obtain ⟨e, hknown, hmoving⟩ : ∃ e,
      (ofTrack .average leapt).estimate 1 = some e ∧
      e.degree = 1 := ⟨_, rfl, rfl⟩
  have htrack : leapt.track 1 Average.limits =
      [⟨30000000, ⟨30, 0⟩⟩, ⟨20000000, ⟨0, 0⟩⟩, ⟨10000000, ⟨0, 0⟩⟩,
      ⟨0, ⟨0, 0⟩⟩] := rfl
  have hvelocities : (Average.pairsOf (fun p : Position ℝ => p.along .x)
      (leapt.track 1 Average.limits)).map Average.Pair.velocity =
        [0, 0, 1000] := by
    rw [htrack]
    norm_num [Average.pairsOf, Average.pairs, Average.partners,
      Average.minDuration, Average.pairVelocity_eq, Position.along]
  obtain ⟨-, hmean⟩ := c1_estimate_between_pairs leapt 1 e hknown hmoving
  obtain ⟨-, -, hleast, hgreatest⟩ := hmean .x
  rw [hvelocities] at hleast hgreatest
  refine ⟨e, hknown, hmoving, ?_, ?_, ?_⟩
  · rw [htrack]
    norm_num [Average.weightsOf, Average.durationsOf, Average.minDuration,
      Average.weights, Average.kept]
  · obtain ⟨v, hv, hle⟩ := hleast
    have hv' : v = 0 ∨ v = 1000 := by simpa using hv
    rcases hv' with rfl | rfl <;> linarith
  · obtain ⟨v, hv, hle⟩ := hgreatest
    have hv' : v = 0 ∨ v = 1000 := by simpa using hv
    rcases hv' with rfl | rfl <;> linarith

end Strategy

end PointerMotion
