/-
What every query is answered.  At every state that calls lead to, an estimate
asks for nothing that is not defined, and its degree, its confidence and its
coefficients fit together.
-/
import Mathlib.Data.List.GetD
import PointerMotion.Proofs.Coordinate
import PointerMotion.Proofs.Defined

namespace PointerMotion

variable {α : Type}

namespace TrackLimits

variable {limits : TrackLimits} {points : List (TrackPoint α)}
    {p q : TrackPoint α}

theorem bounds_of_mem_cutBehind {newest later : Int}
    (h : p ∈ limits.cutBehind newest later points) :
    newest - p.time ≤ limits.horizon ∧ p.time ≤ later := by
  induction points generalizing later with
  | nil => exact absurd h List.not_mem_nil
  | cons q rest ih =>
      rw [cutBehind] at h
      split at h
      next hkept =>
        obtain ⟨hage, hfollows⟩ := Bool.and_eq_true_iff.mp hkept
        have hle : q.time ≤ later := le_of_follows hfollows
        rcases List.mem_cons.mp h with rfl | hrest
        · exact ⟨of_decide_eq_true hage, hle⟩
        · obtain ⟨hage', hle'⟩ := ih hrest
          exact ⟨hage', Int.le_trans hle' hle⟩
      next => exact absurd h List.not_mem_nil

/-- No two points of a track are further apart than the horizon. -/
theorem sub_le_horizon_of_mem_cut (hp : p ∈ limits.cut points)
    (hq : q ∈ limits.cut points) :
    p.time - q.time ≤ limits.horizon := by
  cases points with
  | nil => exact absurd hp List.not_mem_nil
  | cons newest rest =>
      rw [cut] at hp hq
      split at hp
      next hhorizon =>
        rw [if_pos hhorizon] at hq
        have hbounds :
            ∀ r ∈ newest :: limits.cutBehind newest.time newest.time rest,
            newest.time - r.time ≤ limits.horizon ∧ r.time ≤ newest.time := by
          rintro r (_ | ⟨_, hr⟩)
          · exact ⟨by omega, Int.le_refl _⟩
          · exact bounds_of_mem_cutBehind hr
        have hlate := (hbounds p hp).2
        have hearly := (hbounds q hq).1
        omega
      next => exact absurd hp List.not_mem_nil

end TrackLimits

namespace History

theorem length_trackBehind_le (id : PointerId) (limits : TrackLimits)
    (newest later : Int) (movements : List (Movement α)) :
    (trackBehind id limits newest later movements).length ≤
      movements.length := by
  induction movements generalizing later with
  | nil => exact Nat.le_refl _
  | cons m rest ih =>
      rw [trackBehind]
      split
      · exact Nat.zero_le _
      · split
        · exact Nat.succ_le_succ (ih m.time)
        · exact Nat.zero_le _

variable (h : History α) (id : PointerId) (limits : TrackLimits)

/-- A track has a point for some of the retained movements. -/
theorem length_track_le : (h.track id limits).length ≤ h.capacity := by
  have hcount : h.newestFirst.length ≤ h.capacity :=
    h.length_newestFirst ▸ h.count_le
  refine Nat.le_trans ?_ hcount
  rw [track]
  cases h.newestFirst with
  | nil => exact Nat.le_refl _
  | cons m rest =>
      rw [trackThrough]
      split
      · exact Nat.zero_le _
      · split
        · exact Nat.succ_le_succ
            (length_trackBehind_le id limits m.time m.time rest)
        · exact Nat.zero_le _

/-- A track begins at the newest retained movement. -/
theorem time_newest?_of_track_eq_cons {p : TrackPoint α}
    {rest : List (TrackPoint α)} (htrack : h.track id limits = p :: rest) :
    h.newest?.map Movement.time = some p.time := by
  rw [newest?_eq_head?]
  rw [track] at htrack
  cases hmovements : h.newestFirst with
  | nil =>
      rw [hmovements] at htrack
      cases htrack
  | cons m older =>
      rw [hmovements, trackThrough] at htrack
      split at htrack
      · cases htrack
      · split at htrack
        · obtain ⟨rfl, -⟩ := List.cons.inj htrack
          rfl
        · cases htrack

theorem sub_le_horizon_of_mem_track {p q : TrackPoint α}
    (hp : p ∈ h.track id limits) (hq : q ∈ h.track id limits) :
    p.time - q.time ≤ limits.horizon := by
  rw [track_eq_cut_streak] at hp hq
  exact TrackLimits.sub_le_horizon_of_mem_cut hp hq

end History

section Outside

variable (o : Outside)

/-- An estimate of a short track of little extent is the same whatever is not
defined. -/
theorem TrackPlan.estimate_outside (plan : TrackPlan)
    {track : List (TrackPoint Float)}
    (hnear : ∀ p ∈ track, ∀ q ∈ track, p.time - q.time ≤ plan.limits.horizon)
    (hlength : track.length ≤ historySize) :
    @estimate Float o.scalar plan track = plan.estimate track := by
  have hshort : track.length ≤ 20 := hlength
  have hheld : ∀ p ∈ track, ∀ q ∈ track,
      Binary.holdsInt (p.time - q.time) = true := by
    intro p hp q hq
    have hhorizon : plan.limits.horizon ≤ 200000000 := by
      cases plan with
      | regression plan =>
          exact (by decide : Regression.limits.horizon ≤ 200000000)
      | impulse => decide
      | average => decide
    have hforth := hnear p hp q hq
    have hback := hnear q hq p hp
    exact Double.holdsInt_of_natAbs_le (by omega)
  cases plan with
  | regression plan =>
      exact Regression.estimate_outside o plan hheld
        (Double.holdsInt_of_natAbs_le (by omega))
  | impulse => exact Impulse.estimate_outside o hheld
  | average => exact Average.estimate_outside o hnear

theorem Strategy.estimate_outside {plan : Plan} {s : Strategy Float}
    (hmake : s.make = (ofPlan plan : Strategy Float).make) (id : PointerId) :
    @estimate Float o.scalar s id = s.estimate id := by
  cases s with
  | ofTrack trackPlan history =>
      have hcapacity : history.capacity = TrackPlan.historySize := by
        cases plan with
        | ofTrack plan =>
            rw [ofPlan, make, make, History.capacity_ofCapacity] at hmake
            exact (Make.ofTrack.inj hmake).2
        | filter order => cases hmake
      apply trackPlan.estimate_outside o
      · intro p hp q hq
        exact history.sub_le_horizon_of_mem_track id _ hp hq
      · exact hcapacity ▸ history.length_track_le id trackPlan.limits
  | filter order table =>
      have hestimator := funext (Filter.Motion.estimator_outside o order)
      exact congrArg (Option.map · (table.motion? id)) hestimator

end Outside

section Divisors

/-- What the velocities between neighbours of a track are divided by. -/
def Impulse.divisors [Scalar α] (track : List (TrackPoint α)) : List α :=
  List.zipWith
    (fun newer older =>
      Estimator.secondsPerNano * Scalar.ofInt (older.time - newer.time))
    track track.tail

/-- What pairs are divided by: how long they are, alone and with the pair
before. -/
def Average.divisors [Scalar α] (track : List (TrackPoint α)) : List α :=
  match track.reverse with
  | [] => []
  | oldest :: later =>
      let durations := (partners oldest.time later).map fun p =>
        p.time - oldest.time
      durations.map Scalar.ofInt ++
        List.zipWith (fun duration last => Scalar.ofInt (duration + last))
          durations (0 :: durations)

/-- The weighted spread of data around their mean. -/
def Fit.total [Scalar α] (weights data : List α) : α :=
  squares weights data (List.replicate data.length (mean data))

/-- What ages, means, coefficients and shares of a spread are divided by.  A
spread up to the tolerance divides nothing. -/
def Regression.divisors [Scalar α] (plan : Plan)
    (track : List (TrackPoint α)) : List α :=
  match track with
  | [] => []
  | newest :: _ =>
      let samples := Samples.ofTrack plan.weighting newest.time track
      scale :: Scalar.ofInt track.length ::
        (List.range 5).map (Fit.power scale) ++
        ([samples.xs, samples.ys].map (Fit.total samples.weights)).filter
          (Scalar.less Fit.tolerance)

/-- What the estimate of a track divides by. -/
def TrackPlan.divisors [Scalar α] (plan : TrackPlan)
    (track : List (TrackPoint α)) : List α :=
  match plan with
  | regression plan => Regression.divisors plan track
  | impulse => Impulse.divisors track
  | average => Average.divisors track

/-- What a filter divides by when it accepts a sample. -/
def Filter.divisors [Scalar α] (elapsed : Int) : List α :=
  [Estimator.seconds elapsed, timeConstant + Estimator.seconds elapsed]

open Double

/-- Neighbours of a track do not have one time, unless the limits let them. -/
theorem Impulse.divisors_ne_zero {track : List (TrackPoint Float)}
    (h : track.IsChain fun newer older =>
      limits.follows newer.time older.time = true) :
    ∀ d ∈ divisors track, (d == 0.0) = false := by
  induction h with
  | nil => exact fun d hd => absurd hd List.not_mem_nil
  | singleton p => exact fun d hd => absurd hd List.not_mem_nil
  | @cons_cons newer older rest hfollows _ ih =>
      have hstrict : older.time < newer.time := by
        simpa [TrackLimits.follows, limits] using hfollows
      rintro d (_ | ⟨_, hd⟩)
      · exact interval_ne_zero (Int.ne_of_lt hstrict)
      · exact ih d hd

theorem Average.divisors_ne_zero (track : List (TrackPoint Float)) :
    ∀ d ∈ divisors track, (d == 0.0) = false := by
  intro d hd
  rw [divisors] at hd
  split at hd
  next => exact absurd hd List.not_mem_nil
  next oldest later _ =>
    have hlong : ∀ duration ∈ (partners oldest.time later).map fun p =>
        p.time - oldest.time,
        0 < duration := by
      intro duration hduration
      obtain ⟨p, hp, rfl⟩ := List.mem_map.mp hduration
      have hmin : 10000000 ≤ p.time - oldest.time :=
        of_decide_eq_true (List.mem_filter.mp hp).2
      omega
    rcases List.mem_append.mp hd with hpair | hsum
    · obtain ⟨duration, hduration, rfl⟩ := List.mem_map.mp hpair
      exact ofInt_ne_zero (Int.ne_of_gt (hlong duration hduration))
    · rw [← List.map_uncurry_zip_eq_zipWith] at hsum
      obtain ⟨⟨duration, last⟩, hmem, rfl⟩ := List.mem_map.mp hsum
      obtain ⟨hduration, hlast⟩ := List.of_mem_zip hmem
      have hpos := hlong duration hduration
      have hnonneg : 0 ≤ last := by
        rcases List.mem_cons.mp hlast with rfl | hdurations
        · exact Int.le_refl 0
        · exact Int.le_of_lt (hlong last hdurations)
      exact ofInt_ne_zero (by omega)

theorem Regression.divisors_ne_zero (plan : Plan)
    (track : List (TrackPoint Float)) :
    ∀ d ∈ divisors plan track, (d == 0.0) = false := by
  intro d hd
  cases track with
  | nil => exact absurd hd List.not_mem_nil
  | cons newest rest =>
      rcases List.mem_append.mp hd with hfixed | htotal
      · rcases List.mem_cons.mp hfixed with rfl | hcount
        · exact scale_ne_zero
        · rcases List.mem_cons.mp hcount with rfl | hpower
          · exact ofInt_ne_zero (Int.natCast_ne_zero.mpr (Nat.succ_ne_zero _))
          · obtain ⟨k, hk, rfl⟩ := List.mem_map.mp hpower
            exact power_scale_ne_zero (List.mem_range.mp hk)
      · exact Fit.total_ne_zero (List.mem_filter.mp htotal).2

theorem Filter.divisors_ne_zero {elapsed : Int} (h : 0 < elapsed) :
    ∀ d ∈ (divisors elapsed : List Float), (d == 0.0) = false := by
  intro d hd
  rcases List.mem_pair.mp hd with rfl | rfl
  · exact seconds_ne_zero h
  · exact timeConstant_add_ne_zero h

/-- Whether a strategy divides by no zero, in an estimate of a pointer or in a
filter that accepts a sample of it. -/
def Strategy.NonzeroDivisors (s : Strategy Float) (id : PointerId) : Prop :=
  match s with
  | ofTrack plan history =>
      ∀ d ∈ plan.divisors (history.track id plan.limits), (d == 0.0) = false
  | filter _ table =>
      ∀ m, table.motion? id = some m → ∀ time,
        Filter.minElapsed ≤ time - m.time →
        ∀ d ∈ Filter.divisors (time - m.time), (d == 0.0) = false

theorem Strategy.nonzeroDivisors (s : Strategy Float) (id : PointerId) :
    s.NonzeroDivisors id := by
  cases s with
  | ofTrack plan history =>
      cases plan with
      | regression plan => exact Regression.divisors_ne_zero plan _
      | impulse =>
          apply Impulse.divisors_ne_zero
          rw [History.track_eq_cut_streak]
          exact TrackLimits.isChain_cut _ _
      | average => exact Average.divisors_ne_zero _
  | filter order table =>
      intro m _ time helapsed
      exact Filter.divisors_ne_zero (Int.lt_of_lt_of_le (by decide) helapsed)

end Divisors

section Shape

variable [Scalar α]

/-- Whether the coefficients from the `k`-th power on are zero. -/
def Quartic.VanishesFrom (q : Quartic α) (k : Nat) : Prop :=
  ∀ c ∈ q.toList.drop k, c = 0.0

/-- A polynomial has no powers beyond its list of coefficients. -/
theorem Quartic.vanishesFrom_ofList {coefficients : List α} {k : Nat}
    (h : coefficients.length ≤ k) : (ofList coefficients).VanishesFrom k := by
  have hlist : (ofList coefficients).toList =
      (List.range 5).map fun i => coefficients.getD i 0.0 := rfl
  intro c hc
  rw [hlist, ← List.map_drop] at hc
  obtain ⟨i, hi, rfl⟩ := List.mem_map.mp hc
  obtain ⟨j, hj, rfl⟩ := List.mem_drop_iff_getElem.mp hi
  rw [List.getElem_range]
  exact List.getD_eq_default _ _ (by omega)

/-- Whether the parts of an estimator fit together. -/
structure Estimator.Consistent (e : Estimator α) : Prop where
  degree_nonneg : 0 ≤ e.degree
  vanishes : ∀ c, (e.along c).VanishesFrom (e.degree.toNat + 1)
  confidence : e.degree = 0 → e.confidence = 0.0

/-- Whether nothing of an estimator differs from zero. -/
structure Estimator.Blank (e : Estimator α) : Prop where
  time : e.time = 0
  degree : e.degree = 0
  confidence : e.confidence = 0.0
  vanishes : ∀ c, (e.along c).VanishesFrom 0

theorem Estimator.blank_cleared : (cleared : Estimator α).Blank where
  time := rfl
  degree := rfl
  confidence := rfl
  vanishes := by
    intro c
    cases c <;> simp [Quartic.VanishesFrom, along, cleared,
      Quartic.toList, Quartic.zero]

theorem Estimator.Blank.consistent {e : Estimator α} (h : e.Blank) :
    e.Consistent where
  degree_nonneg := Int.le_of_eq h.degree.symm
  vanishes := fun c a ha => h.vanishes c a (List.mem_of_mem_drop ha)
  confidence := fun _ => h.confidence

theorem Estimator.consistent_moving (newest : TrackPoint α)
    (velocity : Coordinate → α) :
    (moving newest velocity).Consistent where
  degree_nonneg := Int.one_nonneg
  vanishes := by
    intro c
    rw [along_moving]
    simp [Quartic.VanishesFrom, moving, Quartic.toList, Quartic.zero]
  confidence := fun h => absurd h Int.one_ne_zero

namespace Regression

theorem consistent_standing (p : TrackPoint α) : (standing p).Consistent where
  degree_nonneg := Int.le_refl 0
  vanishes := by
    intro c
    rw [along_standing]
    simp [Quartic.VanishesFrom, standing, Estimator.cleared,
      Quartic.toList, Quartic.zero]
  confidence := fun _ => rfl

theorem consistent_estimator {s : Samples α} {most : Nat} {m : Model α}
    (h : s.best? most = some m) (time : Int) :
    (m.estimator time).Consistent where
  degree_nonneg := Int.natCast_nonneg m.degree
  vanishes := by
    intro c
    obtain ⟨hx, hy⟩ := Samples.length_coefficients_of_best? h
    rw [Model.along_estimator]
    apply Quartic.vanishesFrom_ofList
    rw [toSeconds, List.length_zipWith, List.length_range, Nat.min_self]
    cases c with
    | x => exact hx
    | y => exact hy
  confidence := by
    intro hzero
    have hlow := (Samples.best?_eq_some h).1
    have hdegree : (m.degree : Int) = 0 := hzero
    omega

end Regression

theorem Filter.Motion.consistent_estimator (order : Order) (m : Motion α) :
    (m.estimator order).Consistent where
  degree_nonneg := Int.natCast_nonneg order.degree
  vanishes := by
    intro c
    rw [along_estimator]
    cases order <;>
      simp [Quartic.VanishesFrom, estimator, Order.degree, Axis.coefficients,
        Quartic.toList, Quartic.zero]
  confidence := by
    intro hzero
    cases order <;> simp [estimator, Order.degree] at hzero

/-- The degrees of the estimates of a plan. -/
def Plan.AllowsDegree : Plan → Int → Prop
  | .ofTrack (.regression plan), degree => degree ≤ plan.degree
  | .ofTrack .impulse, degree => degree = 1
  | .ofTrack .average, degree => degree ≤ 1
  | .filter order, degree => degree = order.degree

/-- What the estimate of a track says of its degree, its confidence and its
time. -/
structure TrackPlan.Supports (plan : TrackPlan) (track : List (TrackPoint α))
    (e : Estimator α) :
    Prop where
  consistent : e.Consistent
  allowed : (Plan.ofTrack plan).AllowsDegree e.degree
  degree_lt_length : e.degree < track.length
  time : 1 ≤ e.degree → track.head?.map TrackPoint.time = some e.time

theorem Regression.supports_of_estimate {plan : Plan}
    {track : List (TrackPoint α)} {e : Estimator α}
    (h : estimate plan track = some e) :
    (TrackPlan.regression plan).Supports track e := by
  obtain ⟨newest, rest, rfl, htime, ⟨m, hbest, rfl⟩ | ⟨-, rfl⟩⟩ :=
    estimate_eq_some h
  · obtain ⟨-, hmost, -⟩ := Samples.best?_eq_some hbest
    have hdegree : m.degree ≤ plan.degree.val :=
      Nat.le_trans hmost (Nat.min_le_left _ _)
    have hshort : m.degree ≤ rest.length :=
      Nat.le_trans hmost (Nat.min_le_right _ _)
    exact
      { consistent := consistent_estimator hbest newest.time
        allowed := Int.ofNat_le.mpr hdegree
        degree_lt_length := Int.ofNat_lt.mpr (Nat.lt_succ_of_le hshort)
        time := fun _ => rfl }
  · exact
      { consistent := consistent_standing newest
        allowed := Int.natCast_nonneg _
        degree_lt_length := Int.ofNat_lt.mpr (Nat.succ_pos _)
        time := fun _ => rfl }

theorem Impulse.supports_of_estimate {track : List (TrackPoint α)}
    {e : Estimator α} (h : estimate track = some e) :
    TrackPlan.impulse.Supports track e := by
  match track with
  | [] => cases h
  | [_] => cases h
  | newest :: second :: rest =>
      rw [estimate_cons_cons] at h
      cases h
      exact
        { consistent := Estimator.consistent_moving newest _
          allowed := rfl
          degree_lt_length :=
            Int.ofNat_lt.mpr (Nat.succ_lt_succ (Nat.succ_pos _))
          time := fun _ => rfl }

theorem Average.supports_of_estimate {track : List (TrackPoint α)}
    {e : Estimator α} (h : estimate track = some e) :
    TrackPlan.average.Supports track e := by
  cases track with
  | nil => cases h
  | cons newest rest =>
      obtain ⟨oldest, later, hreverse⟩ :=
        List.exists_cons_of_ne_nil
          (List.reverse_ne_nil_iff.mpr (List.cons_ne_nil newest rest))
      rw [estimate_of_reverse hreverse] at h
      split at h
      next =>
        cases h
        exact
          { consistent := Estimator.blank_cleared.consistent
            allowed := Int.one_nonneg
            degree_lt_length := Int.ofNat_lt.mpr (Nat.succ_pos _)
            time := fun hdegree => absurd hdegree (Int.not_le.mpr Int.one_pos) }
      next hpairs =>
        cases h
        -- a pair takes two points
        have hlater : later ≠ [] := by
          rintro rfl
          exact hpairs rfl
        have hlength : rest.length = later.length := by
          simpa using congrArg List.length hreverse
        have hpos : 0 < rest.length := hlength ▸ List.length_pos_iff.mpr hlater
        exact
          { consistent := Estimator.consistent_moving newest _
            allowed := Int.le_refl 1
            degree_lt_length := Int.ofNat_lt.mpr (Nat.succ_lt_succ hpos)
            time := fun _ => rfl }

/-- The points that a track needs for an estimate. -/
def TrackPlan.leastPoints : TrackPlan → Nat
  | impulse => 2
  | _ => 1

theorem TrackPlan.isSome_estimate_iff (plan : TrackPlan)
    (track : List (TrackPoint α)) :
    (plan.estimate track).isSome = true ↔ plan.leastPoints ≤ track.length := by
  have hanother : ∀ other : TrackPlan, other ≠ .impulse →
      other.leastPoints = 1 →
      ((other.estimate track).isSome = true ↔
        other.leastPoints ≤ track.length) := by
    intro other hother hleast
    rw [hleast]
    cases track with
    | nil => simp [estimate_nil]
    | cons p rest => simp [isSome_estimate_cons hother]
  cases plan with
  | regression plan => exact hanother _ (by simp) rfl
  | average => exact hanother _ (by simp) rfl
  | impulse =>
      match track with
      | [] => simp [estimate_nil, leastPoints]
      | [_] => simp [estimate, Impulse.estimate, leastPoints]
      | _ :: _ :: _ => simp [estimate, Impulse.estimate, leastPoints]

theorem TrackPlan.supports_of_estimate {plan : TrackPlan}
    {track : List (TrackPoint α)} {e : Estimator α}
    (h : plan.estimate track = some e) : plan.Supports track e := by
  cases plan with
  | regression plan => exact Regression.supports_of_estimate h
  | impulse => exact Impulse.supports_of_estimate h
  | average => exact Average.supports_of_estimate h

namespace Strategy

/-- What an estimate of a pointer is like: that of a history has the degree that
its track allows, and a motion counts from the newest retained movement. -/
def Supports (s : Strategy α) (id : PointerId) (e : Estimator α) : Prop :=
  match s with
  | ofTrack plan history =>
      plan.Supports (history.track id plan.limits) e ∧
        (1 ≤ e.degree → history.newest?.map Movement.time = some e.time)
  | filter order _ => e.Consistent ∧ (Plan.filter order).AllowsDegree e.degree

theorem supports_of_estimate {s : Strategy α} {id : PointerId} {e : Estimator α}
    (h : s.estimate id = some e) : s.Supports id e := by
  cases s with
  | ofTrack plan history =>
      have hsupports := TrackPlan.supports_of_estimate h
      refine ⟨hsupports, ?_⟩
      intro hdegree
      obtain ⟨p, hhead, htime⟩ :=
        Option.map_eq_some_iff.mp (hsupports.time hdegree)
      obtain ⟨rest, htrack⟩ := List.head?_eq_some_iff.mp hhead
      rw [history.time_newest?_of_track_eq_cons id plan.limits htrack, htime]
  | filter order table =>
      obtain ⟨m, -, rfl⟩ := Option.map_eq_some_iff.mp h
      exact ⟨m.consistent_estimator order, rfl⟩

omit [Scalar α] in
/-- Whether enough is known of a pointer for an estimate. -/
def Knows (s : Strategy α) (id : PointerId) : Prop :=
  match s with
  | ofTrack plan history =>
      plan.leastPoints ≤ (history.track id plan.limits).length
  | filter _ table => id ∈ table.known

theorem isSome_estimate_iff (s : Strategy α) (id : PointerId) :
    (s.estimate id).isSome = true ↔ s.Knows id := by
  cases s with
  | ofTrack plan history => exact plan.isSome_estimate_iff _
  | filter order table =>
      rw [estimate, Option.isSome_map]
      exact table.isSome_motion?

/-- Whether an answer about a pointer is well formed: it says whether enough is
known for an estimate, and what it says then is supported. -/
def WellFormed (s : Strategy α) (id : PointerId) : Bool × Estimator α → Prop
  | (true, e) => s.Knows id ∧ s.Supports id e
  | (false, e) => ¬ s.Knows id ∧ e.Blank

end Strategy

theorem Tracker.wellFormed_answer (t : Tracker α) (id : PointerId) :
    t.strategy.WellFormed id (t.answer id) := by
  have hknows := t.strategy.isSome_estimate_iff id
  rw [answer, estimate]
  cases hestimate : t.strategy.estimate id with
  | none =>
      rw [hestimate] at hknows
      exact ⟨fun h => Bool.false_ne_true (hknows.mpr h),
        Estimator.blank_cleared⟩
  | some e =>
      rw [hestimate] at hknows
      exact ⟨hknows.mp rfl, Strategy.supports_of_estimate hestimate⟩

end Shape

namespace Tracker

theorem estimateOf?_val [Scalar α] (t : Tracker α) (id : PointerId) :
    t.estimateOf? id.val = .ok (t.estimate id) := by
  rw [estimateOf?, PointerId.ofInt?_val]
  rfl

/-- Whether queries for a pointer succeed, with no part in it for what is not
defined. -/
structure Answers (t : Tracker Float) (id : PointerId) : Prop where
  estimateOf? : t.estimateOf? id.val = .ok (t.estimate id)
  velocityOf : (t.estimateOf? id.val).map velocityOf = .ok (t.velocity id)
  estimate_outside : ∀ o : Outside,
    @estimate Float o.scalar t id = t.estimate id
  velocity_outside : ∀ o : Outside,
    @velocity Float o.scalar t id = t.velocity id
  nonzeroDivisors : t.strategy.NonzeroDivisors id
  wellFormed : t.strategy.WellFormed id (t.answer id)

theorem answers_of_make {t : Tracker Float} {plan : Plan}
    (h : t.strategy.make = (Strategy.ofPlan plan : Strategy Float).make)
    (id : PointerId) :
    t.Answers id where
  estimateOf? := t.estimateOf?_val id
  velocityOf := by
    rw [t.estimateOf?_val id]
    rfl
  estimate_outside := fun o => Strategy.estimate_outside o h id
  velocity_outside :=
    fun o => congrArg Tracker.velocityOf (Strategy.estimate_outside o h id)
  nonzeroDivisors := t.strategy.nonzeroDivisors id
  wellFormed := t.wellFormed_answer id

/-- After any calls, refused ones among them, every query for a pointer succeeds
with a well-formed answer.  No call and no query divides by zero, takes the root
of a negative number or needs a double out of range: the run and the answers are
the same whatever that would give. -/
theorem answers_after_ofStrategy (strategy : StrategyId)
    (settings : Settings Float) (calls : List (Call Float)) :
    ((ofStrategy strategy settings).after calls).strategy.plan = strategy.plan ∧
      (∀ o : Outside,
        @after Float o.scalar
            (@ofStrategy Float o.scalar strategy settings) calls =
          (ofStrategy strategy settings).after calls) ∧
      ∀ id, ((ofStrategy strategy settings).after calls).Answers id :=
  ⟨plan_after_ofStrategy strategy settings calls,
    fun o => after_ofStrategy_outside o strategy settings calls,
    answers_of_make (make_after (ofStrategy strategy settings) calls).2⟩

end Tracker

end PointerMotion
