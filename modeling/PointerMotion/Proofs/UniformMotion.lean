/-
Uniform motion: over exact numbers a pointer on a line at a constant velocity
is a fixed point of every rule, whatever the spacing of its samples.
-/
import PointerMotion.Proofs.Coordinate
import PointerMotion.Proofs.Energy
import PointerMotion.Proofs.EventTime
import PointerMotion.Proofs.Presence
import PointerMotion.Proofs.Telling

open Polynomial

namespace PointerMotion

namespace Estimator

theorem seconds_eq (nanos : ℤ) : (seconds nanos : ℝ) = nanos * 1e-9 :=
  rfl

theorem seconds_sub (a b : ℤ) :
    (seconds (a - b) : ℝ) = seconds a - seconds b := by
  rw [seconds_eq, seconds_eq, seconds_eq]
  push_cast
  ring

theorem seconds_ne_zero {nanos : ℤ} (h : nanos ≠ 0) :
    (seconds nanos : ℝ) ≠ 0 := by
  rw [seconds_eq]
  exact mul_ne_zero (Int.cast_ne_zero.mpr h) (by norm_num)

end Estimator

/-- Where a pointer is at an event time that is at `start` at time zero and
moves at `drift`. -/
noncomputable def Position.line (start drift : Position ℝ)
    (time : ℤ) : Position ℝ :=
  ⟨start.x + drift.x * Estimator.seconds time,
    start.y + drift.y * Estimator.seconds time⟩

theorem Position.along_line (start drift : Position ℝ) (time : ℤ)
    (c : Coordinate) :
    (line start drift time).along c =
      start.along c + drift.along c * Estimator.seconds time := by
  cases c <;> rfl

/-- Positions on a line differ by the velocity times the seconds between
them. -/
theorem Position.along_line_sub (start drift : Position ℝ) (time time' : ℤ)
    (c : Coordinate) :
    (line start drift time).along c - (line start drift time').along c =
      drift.along c * Estimator.seconds (time - time') := by
  rw [along_line, along_line, Estimator.seconds_sub]
  ring

variable {start drift : Position ℝ}

namespace Filter

/-- A motion on a line.  Its velocity is the one of the line as soon as there is
a measurement, and its acceleration stays at zero. -/
def Motion.IsUniform (start drift : Position ℝ) (m : Motion ℝ) : Prop :=
  ∀ c, m.along c =
    ⟨(Position.line start drift m.time).along c,
      if m.measured = 0 then 0 else drift.along c, 0⟩

theorem isUniform_resting (start drift : Position ℝ) (time : ℤ) :
    (Motion.resting time (Position.line start drift time)).IsUniform
      start drift := by
  intro c
  have hzero : (0.0 : ℝ) = 0 := by norm_num
  rw [Motion.along_resting, Axis.resting, hzero]
  rfl

/-- One more sample of the line leaves a motion on the line. -/
theorem Motion.IsUniform.advance {m : Motion ℝ} (h : m.IsUniform start drift)
    (order : Order) {time : ℤ} (hlater : m.time < time) :
    (m.advance order time (Position.line start drift time)).IsUniform
      start drift := by
  intro c
  have helapsed : (Estimator.seconds (time - m.time) : ℝ) ≠ 0 :=
    Estimator.seconds_ne_zero (by omega)
  have hmeasured :
      ((Position.line start drift time).along c -
          (Position.line start drift m.time).along c) /
        Estimator.seconds (time - m.time) = drift.along c := by
    rw [Position.along_line_sub, mul_div_cancel_right₀ _ helapsed]
  have hcount :
      (m.advance order time (Position.line start drift time)).measured ≠ 0 := by
    have hdegree : 0 < order.degree := by cases order <;> decide
    have hadvance :
        (m.advance order time (Position.line start drift time)).measured =
        min (m.measured + 1) order.degree := rfl
    omega
  have htime : (m.advance order time (Position.line start drift time)).time =
      time := rfl
  rw [Motion.along_advance, h c, if_neg hcount, htime]
  simp only [Axis.advance, hmeasured]
  split
  · rfl
  · cases order with
    | velocity => simp
    | acceleration => simp

theorem isUniform_next {known? : Option (Motion ℝ)}
    (h : ∀ m, known? = some m → m.IsUniform start drift)
    (order : Order) (time : ℤ) :
    (Motion.next order time (Position.line start drift time) known?).IsUniform
      start drift := by
  cases known? with
  | none => exact isUniform_resting start drift time
  | some m =>
      rw [Motion.next]
      split
      · exact isUniform_resting start drift time
      · split
        · exact h m rfl
        · exact (h m rfl).advance order (by omega)

end Filter

namespace Impulse

variable {offset rate : ℝ}

/-- Whether a sample is where a coordinate of constant rate is at its time. -/
def Sample.IsOn (offset rate : ℝ) (s : Sample ℝ) : Prop :=
  s.coordinate = offset + rate * Estimator.seconds s.time

theorem intervalVelocity_of_isOn {older newer : Sample ℝ}
    (holder : older.IsOn offset rate) (hnewer : newer.IsOn offset rate)
    (htime : older.time ≠ newer.time) :
    intervalVelocity older newer = rate := by
  have helapsed : (Estimator.seconds (older.time - newer.time) : ℝ) ≠ 0 :=
    Estimator.seconds_ne_zero (sub_ne_zero.mpr htime)
  have hduration :
      (Estimator.secondsPerNano * Scalar.ofInt (older.time - newer.time) : ℝ) =
      Estimator.seconds (older.time - newer.time) := mul_comm _ _
  have hway : older.coordinate - newer.coordinate =
      rate * Estimator.seconds (older.time - newer.time) := by
    rw [holder, hnewer, Estimator.seconds_sub]
    ring
  rw [intervalVelocity, hduration, hway, mul_div_cancel_right₀ _ helapsed]

theorem workAfter_of_isOn {older newer : Sample ℝ}
    (holder : older.IsOn offset rate) (hnewer : newer.IsOn offset rate)
    (htime : older.time ≠ newer.time) (work : ℝ) :
    workAfter work older newer =
      work + (rate - velocityOfEnergy work) * |rate| := by
  rw [workAfter_of_ne htime, intervalVelocity_of_isOn holder hnewer htime]

/-- A mass that has the energy of its motion keeps it through all further
intervals. -/
theorem workThrough_of_isOn {samples : List (Sample ℝ)}
    (hchain : samples.IsChain fun older newer => older.time < newer.time)
    (hon : ∀ s ∈ samples, s.IsOn offset rate) :
    workThrough (rate * |rate| * 0.5) samples = rate * |rate| * 0.5 := by
  induction samples with
  | nil => rfl
  | cons older later ih =>
      cases later with
      | nil => rfl
      | cons newer rest =>
          have hstep : workAfter (rate * |rate| * 0.5) older newer =
              rate * |rate| * 0.5 := by
            rw [workAfter_of_isOn (hon older (by simp)) (hon newer (by simp))
              (List.isChain_cons_cons.mp hchain).1.ne, velocityOfEnergy_half]
            ring
          rw [workThrough, hstep]
          exact ih (List.isChain_cons_cons.mp hchain).2
            fun s hs => hon s (List.mem_cons_of_mem older hs)

/-- From rest, half of the first interval's work is the energy of the motion. -/
theorem totalWork_of_isOn {samples : List (Sample ℝ)}
    (hlength : 2 ≤ samples.length)
    (hchain : samples.IsChain fun older newer => older.time < newer.time)
    (hon : ∀ s ∈ samples, s.IsOn offset rate) :
    totalWork samples = rate * |rate| * 0.5 := by
  match samples with
  | [] | [_] => simp at hlength
  | older :: newer :: rest =>
      obtain ⟨htime, hrest⟩ := List.isChain_cons_cons.mp hchain
      have hfirst : workAfter 0.0 older newer * 0.5 = rate * |rate| * 0.5 := by
        rw [workAfter_of_isOn (hon older (by simp)) (hon newer (by simp))
          htime.ne, velocityOfEnergy_zero]
        norm_num
      simp only [totalWork, if_neg htime.ne, hfirst]
      exact workThrough_of_isOn hrest fun s hs =>
        hon s (List.mem_cons_of_mem older hs)

/-- The velocity from impulses along a line is its rate. -/
theorem velocity_of_isOn {samples : List (Sample ℝ)}
    (hlength : 2 ≤ samples.length)
    (hchain : samples.IsChain fun newer older => older.time < newer.time)
    (hon : ∀ s ∈ samples, s.IsOn offset rate) : velocity samples = rate := by
  have henergy :=
    totalWork_of_isOn (by rwa [List.length_reverse])
      (List.isChain_reverse.mpr hchain)
    fun s hs => hon s (List.mem_reverse.mp hs)
  rw [velocity_eq_velocityOfEnergy, henergy, velocityOfEnergy_half]

end Impulse

namespace Average

variable {rate : ℝ}

theorem Running.velocity_add {r : Running ℝ} {duration : ℤ}
    (h : r.velocity * r.lastDuration = rate * r.lastDuration)
    (hlast : 0 ≤ r.lastDuration) (hduration : 0 < duration) :
    (r.add rate duration).velocity = rate := by
  have hsum : ((duration + r.lastDuration : ℤ) : ℝ) ≠ 0 := by
    rw [Int.cast_ne_zero]
    omega
  have hadd : (r.add rate duration).velocity =
      (r.velocity * r.lastDuration + rate * duration) /
        (duration + r.lastDuration : ℤ) := rfl
  rw [hadd, h, div_eq_iff hsum]
  push_cast
  ring

/-- An average stays the same as long as all further velocities are the same. -/
theorem velocity_foldl_of_equal {β : Type} {add : Running ℝ → β → Running ℝ}
    {pairs : List β}
    (hadd : ∀ p ∈ pairs, ∃ duration, 0 < duration ∧ ∀ r,
      add r p = r.add rate duration) {r : Running ℝ} (h : r.velocity = rate)
    (hlast : 0 ≤ r.lastDuration) :
    (pairs.foldl add r).velocity = rate := by
  induction pairs generalizing r with
  | nil => exact h
  | cons p rest ih =>
      obtain ⟨duration, hduration, hp⟩ := hadd p List.mem_cons_self
      rw [List.foldl_cons, hp]
      apply ih fun q hq => hadd q (List.mem_cons_of_mem p hq)
      · exact Running.velocity_add (by rw [h]) hlast hduration
      · exact hduration.le

/-- The velocity of two points of a line is its rate. -/
theorem pairVelocity_of_line (start drift : Position ℝ) (c : Coordinate)
    {time oldest : ℤ} (h : oldest < time) :
    pairVelocity ((Position.line start drift oldest).along c)
      ((Position.line start drift time).along c) (time - oldest) =
        drift.along c := by
  have hduration : ((time - oldest : ℤ) : ℝ) ≠ 0 := by
    rw [Int.cast_ne_zero]
    omega
  have hpair : pairVelocity ((Position.line start drift oldest).along c)
      ((Position.line start drift time).along c) (time - oldest) =
      ((Position.line start drift time).along c -
        (Position.line start drift oldest).along c) *
        (((1000000000 : ℤ) : ℝ) / ((time - oldest : ℤ) : ℝ)) := rfl
  have hnanos : (1e-9 : ℝ) * ((1000000000 : ℤ) : ℝ) = 1 := by norm_num
  calc pairVelocity ((Position.line start drift oldest).along c)
        ((Position.line start drift time).along c) (time - oldest)
      = drift.along c * (1e-9 * ((1000000000 : ℤ) : ℝ)) *
          (((time - oldest : ℤ) : ℝ) / ((time - oldest : ℤ) : ℝ)) := by
        rw [hpair, Position.along_line_sub, Estimator.seconds_eq]
        ring
    _ = drift.along c := by rw [hnanos, div_self hduration, mul_one, mul_one]

theorem velocity_of_line (c : Coordinate) {oldest : TrackPoint ℝ}
    {pairs : List (TrackPoint ℝ)} (hpairs : pairs ≠ [])
    (hlater : ∀ p ∈ pairs, oldest.time < p.time)
    (holdest : oldest.position = .line start drift oldest.time)
    (hon : ∀ p ∈ pairs, p.position = .line start drift p.time) :
    velocity (fun p => p.along c) oldest pairs = drift.along c := by
  have hadd : ∀ p ∈ pairs, ∃ duration, 0 < duration ∧ ∀ r : Running ℝ,
      r.add (pairVelocity (oldest.position.along c) (p.position.along c)
        (p.time - oldest.time))
        (p.time - oldest.time) = r.add (drift.along c) duration := by
    intro p hp
    refine ⟨p.time - oldest.time, sub_pos.mpr (hlater p hp), ?_⟩
    intro r
    rw [holdest, hon p hp, pairVelocity_of_line start drift c (hlater p hp)]
  cases pairs with
  | nil => exact absurd rfl hpairs
  | cons p rest =>
      obtain ⟨duration, hduration, hp⟩ := hadd p List.mem_cons_self
      have hfirst : (Running.start.add (drift.along c) duration).velocity =
          drift.along c :=
        Running.velocity_add (by simp [Running.start]) (le_refl 0) hduration
      simp only [velocity, List.foldl_cons]
      rw [hp]
      exact velocity_foldl_of_equal
        (fun q hq => hadd q (List.mem_cons_of_mem p hq)) hfirst
        hduration.le

end Average

namespace Regression

/-- A fit to points of a line is the line. -/
theorem c1_of_line {plan : Plan} {track : List (TrackPoint ℝ)} {e : Estimator ℝ}
    (hknown : estimate plan track = some e) (hmoving : 1 ≤ e.degree)
    (hon : ∀ p ∈ track, p.position = .line start drift p.time)
    (c : Coordinate) :
    (e.along c).c1 = drift.along c := by
  have hbest : Fit.IsBestFit (track.map fun p => (p.time : ℝ))
      (track.map fun p => p.position.along c)
      (plan.weighting.weights ((ages e.time track).map millis)) e.degree.toNat
      ((e.along c).motion e.time) := by
    have hfits := fitsBest_of_estimate hknown hmoving
    cases c with
    | x => exact hfits.x
    | y => exact hfits.y
  have hlow : (C (drift.along c * 1e-9) * X + C (start.along c)).natDegree ≤
      e.degree.toNat :=
    natDegree_linear_le.trans (by omega)
  have hexact : Fit.misfit (track.map fun p => (p.time : ℝ))
      (track.map fun p => p.position.along c)
      (plan.weighting.weights ((ages e.time track).map millis))
      (C (drift.along c * 1e-9) * X + C (start.along c)) = 0 := by
    apply Finset.sum_eq_zero
    intro i _
    have hi : (i : ℕ) < track.length := by simpa using i.isLt
    have hposition :=
      congrArg (fun p => p.along c) (hon track[(i : ℕ)] (List.getElem_mem hi))
    simp only [Position.along_line, Estimator.seconds_eq] at hposition
    have hdata : (track.map fun p => p.position.along c).getD i 0 =
        (C (drift.along c * 1e-9) * X + C (start.along c)).eval
          ((track.map fun p : TrackPoint ℝ => (p.time : ℝ)).get i) := by
      simp [hi, hposition]
      ring
    rw [hdata, sub_self, zero_pow two_ne_zero, mul_zero]
  rw [Quartic.c1_eq_derivative_motion, hbest.eq_of_misfit_eq_zero hlow hexact]
  simp
  ring

end Regression

section Tracks

variable {track : List (TrackPoint ℝ)} {e : Estimator ℝ}

theorem Impulse.c1_of_line
    (hchain : track.IsChain fun newer older => older.time < newer.time)
    (hon : ∀ p ∈ track, p.position = .line start drift p.time)
    (hknown : estimate track = some e) (c : Coordinate) :
    (e.along c).c1 = drift.along c := by
  match track with
  | [] | [_] => cases hknown
  | newest :: second :: rest =>
      rw [estimate_cons_cons, Option.some.injEq] at hknown
      have hon' : ∀ s ∈ axis (fun p => p.along c) (newest :: second :: rest),
          s.IsOn (start.along c) (drift.along c) := by
        intro s hs
        obtain ⟨p, hp, rfl⟩ := List.mem_map.mp hs
        exact (congrArg (fun p => p.along c) (hon p hp)).trans
          (Position.along_line start drift p.time c)
      rw [← hknown, Estimator.along_moving]
      exact velocity_of_isOn (by simp [axis])
        ((List.isChain_map _).mpr hchain) hon'

theorem Average.c1_of_line
    (hon : ∀ p ∈ track, p.position = .line start drift p.time)
    (hknown : estimate track = some e) (hmoving : 1 ≤ e.degree)
    (c : Coordinate) :
    (e.along c).c1 = drift.along c := by
  cases track with
  | nil => cases hknown
  | cons newest rest =>
      obtain ⟨oldest, later, hreverse⟩ :=
        List.exists_cons_of_ne_nil
          (List.reverse_ne_nil_iff.mpr (List.cons_ne_nil newest rest))
      have hon' : ∀ p ∈ oldest :: later,
          p.position = .line start drift p.time := by
        intro p hp
        rw [← hreverse, List.mem_reverse] at hp
        exact hon p hp
      rw [estimate_of_reverse hreverse] at hknown
      split at hknown
      · cases hknown
        cases hmoving
      next hpairs =>
        rw [Option.some.injEq] at hknown
        rw [← hknown, Estimator.along_moving]
        apply velocity_of_line c
        · rwa [List.isEmpty_iff] at hpairs
        · intro p hp
          have hfar : minDuration ≤ p.time - oldest.time :=
            of_decide_eq_true (List.mem_filter.mp hp).2
          have hpositive : 0 < minDuration := by decide
          omega
        · exact hon' oldest List.mem_cons_self
        · intro p hp
          exact hon' p (List.mem_cons_of_mem oldest (List.mem_of_mem_filter hp))

/-- Along a line every rule finds its velocity, if it finds one. -/
theorem TrackPlan.c1_of_line {plan : TrackPlan} {points : List (TrackPoint ℝ)}
    (hon : ∀ p ∈ points, p.position = .line start drift p.time)
    (hknown : plan.estimate (plan.limits.cut points) = some e)
    (hmoving : 1 ≤ e.degree) (c : Coordinate) :
    (e.along c).c1 = drift.along c := by
  have hon' : ∀ p ∈ plan.limits.cut points,
      p.position = .line start drift p.time :=
    fun p hp => hon p (TrackLimits.mem_of_mem_cut hp)
  cases plan with
  | regression plan => exact Regression.c1_of_line hknown hmoving hon' c
  | average => exact Average.c1_of_line hon' hknown hmoving c
  | impulse =>
      refine Impulse.c1_of_line ((TrackLimits.isChain_cut _ points).imp ?_) hon'
        hknown c
      intro later earlier hfollows
      simpa [TrackLimits.follows, TrackPlan.limits,
        Impulse.limits] using hfollows

end Tracks

/-- A velocity is read off an estimate of motion. -/
theorem Tracker.exists_of_velocityOf {α : Type} {known? : Option (Estimator α)}
    {found : Position α} (h : velocityOf known? = some found) :
    ∃ e, known? = some e ∧ 1 ≤ e.degree ∧
      ∀ c, found.along c = (e.along c).c1 := by
  cases known? with
  | none => cases h
  | some e =>
      rw [velocityOf] at h
      split at h
      next hdegree =>
        cases h
        exact ⟨e, rfl, hdegree, fun c => by cases c <;> rfl⟩
      next => cases h

namespace Sight

/-- Whether all that is known of a pointer are samples of one line. -/
def IsOnLine (start drift : Position ℝ) : Sight ℝ → Prop
  | ofTrack _ _ glimpses =>
      ∀ g ∈ glimpses, ∀ p, g.position? = some p → p = .line start drift g.time
  | filter _ motion? => ∀ m, motion? = some m → m.IsUniform start drift

variable {v : Sight ℝ}

theorem isOnLine_unseen (plan : Plan) : (unseen plan).IsOnLine start drift := by
  cases plan with
  | ofTrack plan => exact fun g hg => absurd hg List.not_mem_nil
  | filter order => exact fun m hm => nomatch hm

theorem IsOnLine.cleared (h : v.IsOnLine start drift) :
    v.cleared.IsOnLine start drift := by
  cases v with
  | ofTrack plan capacity glimpses =>
      exact fun g hg => absurd hg List.not_mem_nil
  | filter order motion? => exact fun m hm => nomatch hm

theorem IsOnLine.forgotten (h : v.IsOnLine start drift) :
    v.forgotten.IsOnLine start drift := by
  cases v with
  | ofTrack plan capacity glimpses =>
      intro g hg p hp
      obtain ⟨g', -, rfl⟩ := List.mem_map.mp hg
      cases hp
  | filter order motion? => exact fun m hm => nomatch hm

theorem IsOnLine.seeing (h : v.IsOnLine start drift) {g : Glimpse ℝ}
    (hg : ∀ p, g.position? = some p → p = .line start drift g.time) :
    (v.seeing g).IsOnLine start drift := by
  cases v with
  | ofTrack plan capacity glimpses =>
      intro g' hg' p hp
      rcases Strategy.mem_of_mem_recordGlimpse hg' with rfl | hmem
      · exact hg p hp
      · exact h g' hmem p hp
  | filter order motion? =>
      intro m hm
      obtain ⟨p, hp, rfl⟩ := Option.map_eq_some_iff.mp hm
      rw [hg p hp]
      exact Filter.isUniform_next h order g.time

/-- On a line the velocity is that of the line, or none has been measured
yet. -/
theorem IsOnLine.velocity_eq (h : v.IsOnLine start drift) {found : Position ℝ}
    (hfound : Tracker.velocityOf v.estimate = some found) :
    found = if v.unmeasured then ⟨0, 0⟩ else drift := by
  obtain ⟨e, hknown, hmoving, hcoordinates⟩ :=
    Tracker.exists_of_velocityOf hfound
  cases v with
  | ofTrack plan capacity glimpses =>
      have hon : ∀ p ∈ streak glimpses, p.position = .line start drift p.time :=
        fun p hp => h _ (mem_of_mem_streak hp) _ rfl
      apply Position.eq_of_along
      intro c
      rw [hcoordinates c, TrackPlan.c1_of_line hon hknown hmoving c]
      rfl
  | filter order motion? =>
      obtain ⟨m, rfl, rfl⟩ := Option.map_eq_some_iff.mp hknown
      apply Position.eq_of_along
      intro c
      have hvelocity : ((m.estimator order).along c).c1 =
          if m.measured = 0 then 0 else drift.along c := by
        rw [Filter.Motion.along_estimator, h m rfl c]
        rfl
      rw [hcoordinates c, hvelocity]
      by_cases hmeasured : m.measured = 0
      · cases c <;> simp [unmeasured, Sight.motion?, hmeasured, Position.along]
      · simp [unmeasured, Sight.motion?, hmeasured]

end Sight

/-- Whether a step shows a pointer, where it does, at its place on a line. -/
def Step.ShowsOnLine (id : PointerId) (start drift : Position ℝ) : Step ℝ → Prop
  | .add m => ∀ p, m.position? id = some p → p = .line start drift m.time
  | _ => True

namespace Tracker

/-- The velocity of a pointer whose samples all lie on one line is that of the
line, whenever there is one at all.  A filter that has begun with the pointer,
by what the run has told it, and accepted no other sample since says that it
rests; these are the pointers that it has counted no measurement of. -/
theorem velocity_run_of_line (strategy : StrategyId) (settings : Settings ℝ)
    {id : PointerId} {start drift : Position ℝ} {steps : List (Step ℝ)}
    (htimes : ∀ time ∈ Step.times steps, strategy.plan.HoldsTime time)
    (hline : ∀ step ∈ steps, step.ShowsOnLine id start drift)
    {found : Position ℝ}
    (hfound :
      ((ofStrategy strategy settings).run steps).velocity id = some found) :
    let fresh := ofStrategy strategy settings
    ((fresh.run steps).strategy.sight id).unmeasured =
        strategy.plan.hasJustBegun id (fresh.tellsAll steps) ∧
      found =
        if strategy.plan.hasJustBegun id (fresh.tellsAll steps) then ⟨0, 0⟩
        else drift := by
  rw [velocity, Tracker.estimate, Strategy.estimate_eq] at hfound
  intro fresh
  -- exact numbers have no bounds, so that every settings has a pause
  have hpause : settings.stoppedTime =
      .ok (if settings.stoppedMillis * 1000000.0 < 0
        then ⌈settings.stoppedMillis * 1000000.0⌉
        else ⌊settings.stoppedMillis * 1000000.0⌋) := rfl
  have honLine :
      ((fresh.run steps).strategy.sight id).IsOnLine start drift := by
    refine sight_run_induction (P := Sight.IsOnLine start drift)
      (fun v hv => hv.cleared)
      (fun v hv => hv.forgotten) ?_ hpause ?_ ?_
    · intro v m hm hv
      apply hv.seeing
      intro p hp
      rw [Movement.glimpse, Movement.position?_lowest] at hp
      split at hp
      · exact hline (.add m) hm p hp
      · cases hp
    · rw [plan_ofStrategy]
      exact htimes
    · show ((Strategy.ofPlan strategy.plan).sight id).IsOnLine start drift
      rw [Strategy.sight_ofPlan]
      exact Sight.isOnLine_unseen strategy.plan
  have hbegun := unmeasured_run strategy settings htimes id
  exact ⟨hbegun, hbegun ▸ honLine.velocity_eq hfound⟩

section LineRun

variable (start drift : Position ℝ)

/-- A movement that shows pointer 1 alone, at its place on a line. -/
noncomputable def onLine (time : ℤ) : Movement ℝ :=
  ⟨time, {1}, [.line start drift time], (PointerSet.card_singleton 1).symm⟩

/-- A run that shows pointer 1 at some times. -/
noncomputable def lineRun (times : List ℤ) : List (Step ℝ) :=
  times.map fun time => .add (onLine start drift time)

theorem position?_onLine (time : ℤ) :
    (onLine start drift time).position? 1 = some (.line start drift time) := by
  have hmember : 1 ∈ (onLine start drift time).ids :=
    PointerSet.mem_singleton.mpr rfl
  rw [Movement.position?, dif_pos hmember]
  simp [Movement.position, onLine]

theorem showsOnLine_of_mem_lineRun {times : List ℤ} {step : Step ℝ}
    (h : step ∈ lineRun start drift times) :
    step.ShowsOnLine 1 start drift := by
  obtain ⟨time, -, rfl⟩ := List.mem_map.mp h
  intro p hp
  rw [position?_onLine, Option.some.injEq] at hp
  exact hp.symm

theorem stoppedTime_standard :
    (Settings.standard : Settings ℝ).stoppedTime = .ok 40000000 := by
  have hpause : (Settings.standard : Settings ℝ).stoppedTime =
      .ok (if (40.0 : ℝ) * 1000000.0 < 0 then ⌈(40.0 : ℝ) * 1000000.0⌉
        else ⌊(40.0 : ℝ) * 1000000.0⌋) := rfl
  have hnanos : (40.0 : ℝ) * 1000000.0 = (40000000 : ℤ) := by norm_num
  rw [hpause, hnanos, if_neg (by norm_num), Int.floor_intCast]

section Perform

variable {t : Tracker ℝ} {pause : ℤ}

/-- A movement that comes soon enough sets off no stop. -/
theorem sight_perform_onLine {time : ℤ}
    (hpause : t.settings.stoppedTime = .ok pause)
    (hearly : time < t.lastTime + pause)
    (hholds : t.strategy.plan.HoldsTime time) :
    (t.perform
        (Step.add (onLine start drift time)).call).state.strategy.sight 1 =
      (t.strategy.sight 1).seeing ⟨time, some (.line start drift time)⟩ := by
  have hok :
      (t.addMovement ((onLine start drift time).lowest maxPointers)).error =
        none :=
    error_addMovement_of_holdsTime hpause hholds
  have hkept :
      t.strategyFor pause ((onLine start drift time).lowest maxPointers) =
        t.strategy := by
    apply if_neg
    intro hstops
    exact absurd (stops_iff.mp hstops).2 (not_le.mpr hearly)
  have hshown : ((onLine start drift time).lowest maxPointers).position? 1 =
      some (.line start drift time) := by
    have hmember : 1 ∈ (onLine start drift time).ids.lowest maxPointers := by
      rw [PointerSet.lowest_of_card_le]
      · exact PointerSet.mem_singleton.mpr rfl
      · exact (PointerSet.card_singleton 1).trans_le (by decide)
    rw [Movement.position?_lowest, if_pos hmember, position?_onLine]
  rw [perform_add, strategy_addMovement hpause,
    Strategy.sight_addMovement ((error_strategyFor hpause).trans hok), hkept,
    Movement.glimpse, hshown]
  rfl

/-- A run without a stop shows the pointer at its times, one after another. -/
theorem sight_run_lineRun (hpause : t.settings.stoppedTime = .ok pause)
    {times : List ℤ}
    (hclose : (t.lastTime :: times).IsChain fun time later =>
      later < time + pause)
    (hholds : ∀ time ∈ times, t.strategy.plan.HoldsTime time) :
    (t.run (lineRun start drift times)).strategy.sight 1 =
      times.foldl (fun v time => v.seeing ⟨time, some (.line start drift time)⟩)
        (t.strategy.sight 1) := by
  induction times generalizing t with
  | nil => rfl
  | cons time later ih =>
      obtain ⟨hearly, hrest⟩ := List.isChain_cons_cons.mp hclose
      have hfirst := sight_perform_onLine start drift hpause hearly
        (hholds time List.mem_cons_self)
      rw [lineRun, List.map_cons, run_cons, List.foldl_cons, ← hfirst]
      apply ih
      · rw [perform_add, settings_addMovement hpause]
        exact hpause
      · rw [perform_add, lastTime_addMovement hpause]
        exact hrest
      · intro time' htime'
        rw [perform_add, plan_addMovement hpause]
        exact hholds time' (List.mem_cons_of_mem time htime')

end Perform

theorem sight_run_ofStrategy {strategy : StrategyId} {plan : TrackPlan}
    (hplan : strategy.plan = .ofTrack plan) {times : List ℤ}
    (hclose : (0 :: times).IsChain fun time later => later < time + 40000000) :
    ((ofStrategy strategy Settings.standard).run
        (lineRun start drift times)).strategy.sight 1 =
      times.foldl (fun v time => v.seeing ⟨time, some (.line start drift time)⟩)
        (.unseen (.ofTrack plan)) := by
  have hpause :
      (ofStrategy strategy Settings.standard : Tracker ℝ).settings.stoppedTime =
        .ok 40000000 := stoppedTime_standard
  have hholds : ∀ time ∈ times,
      (ofStrategy strategy Settings.standard
        : Tracker ℝ).strategy.plan.HoldsTime time := by
    intro time _
    rw [plan_ofStrategy, hplan]
    trivial
  rw [sight_run_lineRun start drift hpause hclose hholds, ofStrategy,
    Strategy.sight_ofPlan, hplan]

/-- Four times at uneven distances. -/
def unevenTimes : List ℤ :=
  [0, 6000000, 8000000, 14000000]

theorem sight_run_uneven :
    ((ofStrategy .lsq2 Settings.standard).run
        (lineRun start drift unevenTimes)).strategy.sight 1 =
      .ofTrack (.regression ⟨2, .none⟩) TrackPlan.historySize
        (unevenTimes.reverse.map
          fun time => ⟨time, some (.line start drift time)⟩) :=
  (sight_run_ofStrategy start drift rfl (by decide)).trans rfl

/-- The factorisation for a line through these times, in horizons before the
newest. -/
theorem isFactorisation_uneven :
    Fit.IsFactorisation
      (Fit.design [0, -3 / 50, -2 / 25, -7 / 50] [1, 1, 1, 1] 2)
      !![1 / 2, 7 / 10; 1 / 2, 1 / 10; 1 / 2, -1 / 10; 1 / 2, -7 / 10]
      !![2, -7 / 50; 0, 1 / 10] where
  product := by
    ext i k
    fin_cases i <;> fin_cases k <;>
      norm_num [Fit.design, Matrix.mul_apply, Fin.sum_univ_two]
  orthonormal := by
    let Q : Matrix (Fin 4) (Fin 2) ℝ :=
      !![1 / 2, 7 / 10; 1 / 2, 1 / 10; 1 / 2, -1 / 10; 1 / 2, -7 / 10]
    show Q.transpose * Q = 1
    ext i k
    fin_cases i <;> fin_cases k <;>
      norm_num [Q, Matrix.mul_apply, Fin.sum_univ_succ]
  triangular i j hbefore := by
    fin_cases i <;> fin_cases j <;> simp_all

theorem tolerance_le_diagonal_uneven (k : Fin 2) :
    (Fit.tolerance : ℝ) ≤
      |(!![2, -7 / 50; 0, 1 / 10] : Matrix (Fin 2) (Fin 2) ℝ) k k| := by
  fin_cases k <;> norm_num [Fit.tolerance]

/-- The track of a pointer that is seen at these times. -/
noncomputable def unevenTrack : List (TrackPoint ℝ) :=
  unevenTimes.reverse.map fun time => ⟨time, .line start drift time⟩

theorem estimate_run_uneven :
    ((ofStrategy .lsq2 Settings.standard).run
        (lineRun start drift unevenTimes)).estimate 1 =
      Regression.estimate ⟨2, .none⟩ (unevenTrack start drift) := by
  rw [Tracker.estimate, Strategy.estimate_eq, sight_run_uneven]
  rfl

/-- The factorisation supports a line, so that the fit is one of motion. -/
theorem one_le_degree_uneven {e : Estimator ℝ}
    (he : Regression.estimate ⟨2, .none⟩ (unevenTrack start drift) = some e) :
    1 ≤ e.degree := by
  have htime : e.time = 14000000 := by
    obtain ⟨newest, rest, hshape, htime, -⟩ := Regression.estimate_eq_some he
    rw [htime, ← (List.cons.inj hshape).1]
  have htimes :
      (Regression.ages e.time (unevenTrack start drift)).map
          Regression.horizons =
        [0, -3 / 50, -2 / 25, -7 / 50] := by
    have hscaled := Regression.times_ofTrack .none e.time
      (unevenTrack start drift)
    refine hscaled.trans ?_
    norm_num [htime, unevenTrack, unevenTimes]
  have hweights :
      Weighting.none.weights
          ((Regression.ages e.time (unevenTrack start drift)).map
            Regression.millis) =
        [1, 1, 1, 1] := by
    norm_num [Regression.ages, unevenTrack, unevenTimes, Weighting.weights,
      Weighting.weightsBehind, Weighting.weight]
  apply Regression.degree_le_of_estimate he (le_refl 1) (by decide)
  · simp [unevenTrack, unevenTimes]
  · rw [htimes, hweights]
    exact ⟨_, _, isFactorisation_uneven, tolerance_le_diagonal_uneven⟩

theorem exists_velocity_run_uneven :
    ∃ found, ((ofStrategy .lsq2 Settings.standard).run
      (lineRun start drift unevenTimes)).velocity 1 = some found := by
  obtain ⟨e, he⟩ : ∃ e,
      Regression.estimate ⟨2, .none⟩ (unevenTrack start drift) = some e := by
    simp only [unevenTrack, unevenTimes, List.reverse_cons, List.reverse_nil,
      List.nil_append, List.cons_append, List.map_cons, List.map_nil,
      Regression.estimate]
    split <;> exact ⟨_, rfl⟩
  rw [velocity, estimate_run_uneven, he, velocityOf,
    if_pos (one_le_degree_uneven start drift he)]
  exact ⟨_, rfl⟩

/-- A pointer that is seen at uneven times is read at the velocity of its
line. -/
theorem velocity_run_lineRun :
    ((ofStrategy .lsq2 Settings.standard).run
      (lineRun ⟨0, 0⟩ ⟨100, 200⟩ unevenTimes)).velocity 1 =
        some ⟨100, 200⟩ := by
  obtain ⟨found, hfound⟩ := exists_velocity_run_uneven ⟨0, 0⟩ ⟨100, 200⟩
  obtain ⟨-, hequal⟩ :=
    velocity_run_of_line .lsq2 Settings.standard (fun _ _ => trivial)
    (fun _ hstep => showsOnLine_of_mem_lineRun _ _ hstep) hfound
  rw [hfound, hequal]
  rfl

end LineRun

end Tracker

end PointerMotion
