/-
What each pair weighs in an average.  A new pair is weighed against the last
alone, so the weights are products of ratios of neighbouring durations.
-/
import PointerMotion.Proofs.Coordinate
import PointerMotion.Proofs.EventTime

namespace PointerMotion

namespace Average

section Pairs

variable {α : Type} [Scalar α]

/-- What a pair of samples measures, and over which time. -/
structure Pair (α : Type) where
  velocity : α
  duration : Int

/-- What the oldest point of a track measures with each of its partners. -/
def pairs (coordinate : Position α → α) (oldest : TrackPoint α)
    (partners : List (TrackPoint α)) : List (Pair α) :=
  partners.map fun p =>
    ⟨pairVelocity (coordinate oldest.position) (coordinate p.position)
      (p.time - oldest.time),
      p.time - oldest.time⟩

/-- The pairs of a track, newest point first, from the oldest pair on. -/
def pairsOf (coordinate : Position α → α) (track : List (TrackPoint α)) :
    List (Pair α) :=
  match track.reverse with
  | [] => []
  | oldest :: later => pairs coordinate oldest (partners oldest.time later)

def Running.addPair (r : Running α) (p : Pair α) : Running α :=
  r.add p.velocity p.duration

/-- The average of pairs as they come, from one that has begun. -/
def Running.through (r : Running α) (pairs : List (Pair α)) : Running α :=
  pairs.foldl Running.addPair r

theorem velocity_eq_through (coordinate : Position α → α)
    (oldest : TrackPoint α) (partners : List (TrackPoint α)) :
    velocity coordinate oldest partners =
      (Running.start.through (pairs coordinate oldest partners)).velocity := by
  rw [velocity, Running.through, pairs, List.foldl_map]
  rfl

/-- An estimate of motion averages the pairs of its track. -/
theorem c1_of_estimate {track : List (TrackPoint α)} {e : Estimator α}
    (hknown : estimate track = some e) (hmoving : 1 ≤ e.degree)
    (c : Coordinate) :
    (e.along c).c1 =
      (Running.start.through
          (pairsOf (fun p => p.along c) track)).velocity := by
  cases track with
  | nil => cases hknown
  | cons newest rest =>
      obtain ⟨oldest, later, hreverse⟩ :=
        List.exists_cons_of_ne_nil
          (List.reverse_ne_nil_iff.mpr (List.cons_ne_nil newest rest))
      rw [estimate_of_reverse hreverse] at hknown
      split at hknown
      · cases hknown
        cases hmoving
      · rw [Option.some.injEq] at hknown
        rw [← hknown, Estimator.along_moving, velocity_eq_through,
          pairsOf, hreverse]

end Pairs

theorem pairVelocity_eq (oldest later : ℝ) (duration : ℤ) :
    pairVelocity oldest later duration = (later - oldest) *
      (((1000000000 : ℤ) : ℝ) / duration) :=
  rfl

/-- The mean of velocities, each weighted by the duration over which it was
measured. -/
noncomputable def weightedMean (pairs : List (Pair ℝ)) : ℝ :=
  (pairs.map fun p => p.velocity * (p.duration : ℝ)).sum /
    (pairs.map fun p => (p.duration : ℝ)).sum

/-- What is left of an average, whose last pair took `last`, when pairs of some
durations have been added to it. -/
noncomputable def kept (last : ℤ) : List ℤ → ℝ
  | [] => 1
  | d :: rest => last / (d + last) * kept d rest

/-- What each of the added pairs weighs in the end. -/
noncomputable def weights (last : ℤ) : List ℤ → List ℝ
  | [] => []
  | d :: rest => d / (d + last) * kept d rest :: weights d rest

theorem Running.velocity_through (r : Running ℝ) (pairs : List (Pair ℝ)) :
    (r.through pairs).velocity =
      kept r.lastDuration (pairs.map Pair.duration) * r.velocity +
      (List.zipWith (· * ·) (weights r.lastDuration (pairs.map Pair.duration))
        (pairs.map Pair.velocity)).sum := by
  induction pairs generalizing r with
  | nil => simp [through, kept, weights]
  | cons p rest ih =>
      have hthrough : r.through (p :: rest) = (r.addPair p).through rest := rfl
      have hlast : (r.addPair p).lastDuration = p.duration := rfl
      have hadded : (r.addPair p).velocity = (r.velocity * r.lastDuration +
          p.velocity * p.duration) / ((p.duration + r.lastDuration : ℤ) : ℝ) :=
            rfl
      rw [hthrough, ih, hlast, hadded]
      simp only [List.map_cons, kept, weights, List.zipWith_cons_cons,
        List.sum_cons]
      push_cast
      ring

/-- The average of pairs as the sum of their weighted velocities. -/
theorem velocity_through_start (pairs : List (Pair ℝ)) :
    (Running.start.through pairs).velocity =
      (List.zipWith (· * ·) (weights 0 (pairs.map Pair.duration))
        (pairs.map Pair.velocity)).sum := by
  rw [Running.velocity_through]
  norm_num [Running.start]

/-- A new pair is weighed against the last one before it, whatever came before
that. -/
theorem velocity_through_append (r : Running ℝ) (pairs : List (Pair ℝ))
    (p q : Pair ℝ) :
    (r.through (pairs ++ [p, q])).velocity =
      ((r.through (pairs ++ [p])).velocity * p.duration +
        q.velocity * q.duration) /
        ((q.duration + p.duration : ℤ) : ℝ) := by
  have hlast : (r.through (pairs ++ [p])).lastDuration = p.duration := by
    simp [Running.through, Running.addPair, Running.add]
  have hthrough : r.through (pairs ++ [p, q]) =
      (r.through (pairs ++ [p])).addPair q := by
    simp [Running.through]
  rw [hthrough, ← hlast]
  rfl

/-- The average of at most two pairs is their mean, weighted by duration. -/
theorem velocity_through_of_length_le_two {pairs : List (Pair ℝ)}
    (hpositive : ∀ p ∈ pairs, 0 < p.duration) (hfew : pairs.length ≤ 2) :
    (Running.start.through pairs).velocity = weightedMean pairs := by
  match pairs with
  | [] => norm_num [Running.through, Running.start, weightedMean]
  | [p] =>
      norm_num [velocity_through_start, weights, kept, weightedMean]
      ring
  | [p, q] =>
      have hp : (p.duration : ℝ) ≠ 0 :=
        Int.cast_ne_zero.mpr (hpositive p (by simp)).ne'
      simp only [velocity_through_start, List.map_cons, List.map_nil, weights,
        kept, weightedMean, List.zipWith_cons_cons, List.zipWith_nil_left,
        List.sum_cons, List.sum_nil, Int.cast_zero, add_zero, div_self hp]
      ring

theorem velocity_through_of_still {r : Running ℝ} {pairs : List (Pair ℝ)}
    (hr : r.velocity = 0) (hstill : ∀ p ∈ pairs, p.velocity = 0) :
    (r.through pairs).velocity = 0 := by
  induction pairs generalizing r with
  | nil => exact hr
  | cons p rest ih =>
      apply ih
      · have hp := hstill p List.mem_cons_self
        simp [Running.addPair, Running.add, hr, hp]
      · exact fun q hq => hstill q (List.mem_cons_of_mem p hq)

/-- Of three pairs the newest weighs more than its share of the durations. -/
theorem velocity_through_ne_weightedMean {older : List (Pair ℝ)} {p q : Pair ℝ}
    (hpositive : ∀ o ∈ older ++ [p, q], 0 < o.duration) (holder : older ≠ [])
    (hstill : ∀ o ∈ older ++ [p], o.velocity = 0) (hq : q.velocity ≠ 0) :
    (Running.start.through (older ++ [p, q])).velocity ≠
      weightedMean (older ++ [p, q]) := by
  have hp : (0 : ℝ) < p.duration := Int.cast_pos.mpr (hpositive p (by simp))
  have hq' : (0 : ℝ) < q.duration := Int.cast_pos.mpr (hpositive q (by simp))
  have hothers : 0 < (older.map fun o => (o.duration : ℝ)).sum := by
    refine List.sum_pos _ ?_ (by simpa using holder)
    intro d hd
    obtain ⟨o, ho, rfl⟩ := List.mem_map.mp hd
    exact Int.cast_pos.mpr (hpositive o (by simp [ho]))
  have hway :
      ((older ++ [p, q]).map fun o => o.velocity * (o.duration : ℝ)).sum =
      q.velocity * q.duration := by
    have hnone : (older.map fun o => o.velocity * (o.duration : ℝ)).sum =
        0 := by
      apply List.sum_eq_zero
      intro d hd
      obtain ⟨o, ho, rfl⟩ := List.mem_map.mp hd
      rw [hstill o (by simp [ho]), zero_mul]
    simp [hnone, hstill p (by simp)]
  have htime : ((older ++ [p, q]).map fun o => (o.duration : ℝ)).sum =
      (older.map fun o => (o.duration : ℝ)).sum +
        (q.duration + p.duration) := by
    simp [add_comm]
  have hbefore : (Running.start.through (older ++ [p])).velocity = 0 :=
    velocity_through_of_still (by norm_num [Running.start]) hstill
  have hwork : q.velocity * q.duration ≠ 0 := mul_ne_zero hq hq'.ne'
  rw [velocity_through_append, hbefore, weightedMean, hway, htime, zero_mul,
    zero_add, Int.cast_add]
  intro hsame
  rw [div_eq_div_iff (by positivity) (by positivity)] at hsame
  have hequal := mul_left_cancel₀ hwork hsame
  linarith

/-- Over positive durations the average is the mean weighted by them, whatever
the velocities are, just when there are at most two. -/
theorem forall_velocity_through_eq_iff {durations : List ℤ}
    (hpositive : ∀ d ∈ durations, 0 < d) :
    (∀ pairs : List (Pair ℝ), pairs.map Pair.duration = durations →
      (Running.start.through pairs).velocity = weightedMean pairs) ↔
      durations.length ≤ 2 := by
  have hdurations : ∀ pairs : List (Pair ℝ),
      pairs.map Pair.duration = durations →
      ∀ p ∈ pairs, 0 < p.duration := by
    rintro pairs rfl p hp
    exact hpositive _ (List.mem_map_of_mem hp)
  constructor
  · intro hmean
    by_contra hmany
    match hshape : durations.reverse with
    | [] | [_] | [_, _] =>
        have hlength := congrArg List.length hshape
        simp only [List.length_reverse, List.length_cons,
          List.length_nil] at hlength
        omega
    | d' :: d :: e :: rest =>
        let older : List (Pair ℝ) := (e :: rest).reverse.map fun d => ⟨0, d⟩
        have hpairs :
            (older ++ [(⟨0, d⟩ : Pair ℝ), ⟨1, d'⟩]).map Pair.duration =
              durations := by
          rw [← List.reverse_reverse durations, hshape]
          simp [older, Function.comp_def]
        refine velocity_through_ne_weightedMean (hdurations _ hpairs)
          (by simp [older]) ?_
          one_ne_zero (hmean _ hpairs)
        intro o ho
        rcases List.mem_append.mp ho with ho | ho
        · obtain ⟨_, -, rfl⟩ := List.mem_map.mp ho
          rfl
        · rw [List.mem_singleton.mp ho]
  · rintro hfew pairs rfl
    exact velocity_through_of_length_le_two (hdurations pairs rfl)
      (by simpa using hfew)

theorem pos_of_mem_pairsOf {coordinate : Position ℝ → ℝ}
    {track : List (TrackPoint ℝ)} {p : Pair ℝ}
    (h : p ∈ pairsOf coordinate track) : 0 < p.duration := by
  rw [pairsOf] at h
  split at h
  · cases h
  · obtain ⟨q, hq, rfl⟩ := List.mem_map.mp h
    have hfar : minDuration ≤ q.time - _ :=
      of_decide_eq_true (List.mem_filter.mp hq).2
    have hpositive : 0 < minDuration := by decide
    exact hpositive.trans_le hfar

end Average

namespace Strategy

/-- The velocity that an average reports weighs each pair of the track by its
place among the durations.  It is the mean of the pair velocities, weighted by
duration, when there are at most two pairs; with more the durations allow
velocities of which it is not. -/
theorem c1_estimate_average (history : History ℝ) (id : PointerId)
    (e : Estimator ℝ) (hknown : (ofTrack .average history).estimate id = some e)
    (hmoving : e.degree = 1) (c : Coordinate) :
    let pairs := Average.pairsOf (fun p => p.along c)
      (history.track id Average.limits)
    (e.along c).c1 =
      (List.zipWith (· * ·) (Average.weights 0 (pairs.map (·.duration)))
        (pairs.map (·.velocity))).sum ∧
      (pairs.length ≤ 2 → (e.along c).c1 = Average.weightedMean pairs) ∧
      ((∀ pairs' : List (Average.Pair ℝ),
          pairs'.map (·.duration) = pairs.map (·.duration) →
          (Average.Running.start.through pairs').velocity =
            Average.weightedMean pairs') ↔
        pairs.length ≤ 2) := by
  intro pairs
  have hpositive : ∀ p ∈ pairs, 0 < p.duration :=
    fun p hp => Average.pos_of_mem_pairsOf hp
  have hthrough :
      (e.along c).c1 = (Average.Running.start.through pairs).velocity :=
    Average.c1_of_estimate hknown hmoving.ge c
  refine ⟨?_, ?_, ?_⟩
  · rw [hthrough, Average.velocity_through_start]
  · intro hfew
    rw [hthrough, Average.velocity_through_of_length_le_two hpositive hfew]
  · rw [Average.forall_velocity_through_eq_iff (by simpa using hpositive),
      List.length_map]

section Samples

/-- A movement that shows one pointer alone. -/
def showing (id : PointerId) (time : ℤ) (p : Position ℝ) : Movement ℝ :=
  ⟨time, {id}, [p], (PointerSet.card_singleton id).symm⟩

/-- The history of an average that was shown pointer 1 three times, 10 and 20 ms
apart. -/
noncomputable def threeShown : History ℝ :=
  (((History.ofCapacity TrackPlan.historySize historySize_pos).append
      (showing 1 0 ⟨0, 0⟩)).append
    (showing 1 10000000 ⟨20, 0⟩)).append (showing 1 30000000 ⟨30, 0⟩)

/-- With two pairs, of 2000 over 10 ms and 1000 over 30 ms, the average is
1250. -/
theorem c1_estimate_threeShown :
    (ofPlan (.ofTrack .average)).run [.add (showing 1 0 ⟨0, 0⟩),
      .add (showing 1 10000000 ⟨20, 0⟩),
      .add (showing 1 30000000 ⟨30, 0⟩)] = ofTrack .average threeShown ∧
      ∃ e, (ofTrack .average threeShown).estimate 1 = some e ∧ e.degree = 1 ∧
        (e.along .x).c1 = 1250 := by
  refine ⟨rfl, ?_⟩
  obtain ⟨e, hknown, hmoving⟩ : ∃ e,
      (ofTrack .average threeShown).estimate 1 = some e ∧
      e.degree = 1 := ⟨_, rfl, rfl⟩
  refine ⟨e, hknown, hmoving, ?_⟩
  have hpairs : Average.pairsOf (fun p => p.along .x)
      (threeShown.track 1 Average.limits) =
      [⟨2000, 10000000⟩, ⟨1000, 30000000⟩] := by
    have htrack : threeShown.track 1 Average.limits =
        [⟨30000000, ⟨30, 0⟩⟩, ⟨10000000, ⟨20, 0⟩⟩, ⟨0, ⟨0, 0⟩⟩] := rfl
    rw [htrack]
    norm_num [Average.pairsOf, Average.pairs, Average.partners,
      Average.minDuration, Average.pairVelocity_eq, Position.along]
  have hmean := (c1_estimate_average threeShown 1 e hknown hmoving .x).2.1
  rw [hmean (by rw [hpairs]; rfl), hpairs]
  norm_num [Average.weightedMean]

/-- The history of an average to which pointer 1 rested for 20 ms and leapt in
the next 10. -/
noncomputable def leapt : History ℝ :=
  ((((History.ofCapacity TrackPlan.historySize historySize_pos).append
      (showing 1 0 ⟨0, 0⟩)).append
    (showing 1 10000000 ⟨0, 0⟩)).append (showing 1 20000000 ⟨0, 0⟩)).append
    (showing 1 30000000 ⟨30, 0⟩)

/-- The leap weighs three fifths, though it took half of all the time
measured. -/
theorem c1_estimate_leapt_ne :
    (ofPlan (.ofTrack .average)).run [.add (showing 1 0 ⟨0, 0⟩),
        .add (showing 1 10000000 ⟨0, 0⟩), .add (showing 1 20000000 ⟨0, 0⟩),
        .add (showing 1 30000000 ⟨30, 0⟩)] = ofTrack .average leapt ∧
      ∃ e, (ofTrack .average leapt).estimate 1 = some e ∧ e.degree = 1 ∧
        (e.along .x).c1 = 600 ∧
        Average.weightedMean (Average.pairsOf (fun p => p.along .x)
          (leapt.track 1 Average.limits)) = 500 := by
  refine ⟨rfl, ?_⟩
  obtain ⟨e, hknown, hmoving⟩ : ∃ e,
      (ofTrack .average leapt).estimate 1 = some e ∧
      e.degree = 1 := ⟨_, rfl, rfl⟩
  have hpairs : Average.pairsOf (fun p => p.along .x)
      (leapt.track 1 Average.limits) =
      [⟨0, 10000000⟩, ⟨0, 20000000⟩, ⟨1000, 30000000⟩] := by
    have htrack : leapt.track 1 Average.limits =
        [⟨30000000, ⟨30, 0⟩⟩, ⟨20000000, ⟨0, 0⟩⟩, ⟨10000000, ⟨0, 0⟩⟩,
        ⟨0, ⟨0, 0⟩⟩] := rfl
    rw [htrack]
    norm_num [Average.pairsOf, Average.pairs, Average.partners,
      Average.minDuration, Average.pairVelocity_eq, Position.along]
  have hestimate : Average.estimate (leapt.track 1 Average.limits) =
      some e := hknown
  refine ⟨e, hknown, hmoving, ?_, ?_⟩
  · rw [Average.c1_of_estimate hestimate hmoving.ge, hpairs,
      Average.velocity_through_start]
    norm_num [Average.weights, Average.kept]
  · rw [hpairs]
    norm_num [Average.weightedMean]

end Samples

end Strategy

end PointerMotion
