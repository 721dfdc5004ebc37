/-
The velocity of a filter of the first order does not overshoot: it stays
between the velocities measured since the pointer began.
-/
import PointerMotion.Proofs.Course
import PointerMotion.Proofs.UniformMotion

namespace PointerMotion

/-- The velocity along a coordinate from a sample to a later one. -/
noncomputable def TrackPoint.velocityTo (before later : TrackPoint ℝ)
    (axis : Coordinate) : ℝ :=
  (later.position.along axis - before.position.along axis) /
    Estimator.seconds (later.time - before.time)

namespace Estimator

theorem seconds_pos {nanos : ℤ} (h : 0 < nanos) : (0 : ℝ) < seconds nanos := by
  rw [seconds_eq]
  have hnanos : (0 : ℝ) < nanos := Int.cast_pos.mpr h
  positivity

end Estimator

namespace Filter

/-- The velocities along a coordinate between the samples of a course, the
newest first. -/
noncomputable def Course.velocities (c : Course ℝ)
    (axis : Coordinate) : List ℝ :=
  List.zipWith (fun later before => before.velocityTo later axis)
    (c.latest :: c.earlier)
    c.earlier

@[simp] theorem Course.velocities_cons (s latest : TrackPoint ℝ)
    (earlier : List (TrackPoint ℝ)) (axis : Coordinate) :
    (Course.mk s (latest :: earlier)).velocities axis =
      latest.velocityTo s axis :: (Course.mk latest earlier).velocities axis :=
  rfl

theorem gain_pos {dt : ℝ} (h : 0 < dt) : 0 < gain dt := by
  have hconstant : (0 : ℝ) < timeConstant := by norm_num [timeConstant]
  exact div_pos h (add_pos hconstant h)

theorem gain_lt_one {dt : ℝ} (h : 0 < dt) : gain dt < 1 := by
  have hconstant : (0 : ℝ) < timeConstant := by norm_num [timeConstant]
  exact (div_lt_one (add_pos hconstant h)).mpr (lt_add_of_pos_left dt hconstant)

/-- A velocity that is blended with a measured one lies between the two. -/
theorem Axis.velocity_advance_between {measured : ℕ} (hmeasured : measured ≠ 0)
    {dt : ℝ} (hdt : 0 < dt) (position : ℝ) (a : Axis ℝ) :
    let velocity := (a.advance .velocity measured dt position).velocity
    min a.velocity ((position - a.position) / dt) ≤ velocity ∧
      velocity ≤ max a.velocity ((position - a.position) / dt) := by
  intro velocity
  set new := (position - a.position) / dt
  have hblend : velocity = (1 - gain dt) • a.velocity + gain dt • new := by
    have hvelocity : velocity = a.velocity + (new - a.velocity) * gain dt := by
      simp only [velocity, advance, if_neg hmeasured, new]
    rw [hvelocity, smul_eq_mul, smul_eq_mul]
    ring
  have hold : 0 ≤ 1 - gain dt := sub_nonneg.mpr (gain_lt_one hdt).le
  have hnew : 0 ≤ gain dt := (gain_pos hdt).le
  rw [hblend]
  exact ⟨Convex.min_le_combo _ _ hold hnew (sub_add_cancel 1 _),
    Convex.combo_le_max _ _ hold hnew (sub_add_cancel 1 _)⟩

/-- Whether each velocity lies between two of those measured on the course, if
there are any. -/
def Motion.IsBounded (m : Motion ℝ) (c : Course ℝ) : Prop :=
  c.earlier ≠ [] → ∀ axis,
    (∃ v ∈ c.velocities axis, v ≤ (m.along axis).velocity) ∧
      ∃ v ∈ c.velocities axis, (m.along axis).velocity ≤ v

/-- A motion that goes on with a sample is bounded by one more velocity. -/
theorem Motion.IsBounded.advance {m : Motion ℝ} {c : Course ℝ}
    (h : m.IsBounded c) (hrecords : m.Records .velocity c) {s : TrackPoint ℝ}
    (hlater : c.latest.time < s.time) :
    (m.advance .velocity s.time s.position).IsBounded ⟨s,
        c.latest :: c.earlier⟩ := by
  intro _ axis
  have hdt : (0 : ℝ) < Estimator.seconds (s.time - c.latest.time) :=
    Estimator.seconds_pos (sub_pos.mpr hlater)
  have hnew : c.latest.velocityTo s axis =
      (s.position.along axis - (m.along axis).position) /
        Estimator.seconds (s.time - c.latest.time) := by
    rw [TrackPoint.velocityTo, hrecords.position axis]
  rw [along_advance, Course.velocities_cons, hrecords.time]
  by_cases hfirst : c.earlier = []
  · -- the first measured velocity is taken as it is
    have hnone : m.measured = 0 := by
      rw [hrecords.measured, hfirst]
      rfl
    have htaken :
        ((m.along axis).advance .velocity m.measured
            (Estimator.seconds (s.time - c.latest.time))
            (s.position.along axis)).velocity =
          c.latest.velocityTo s axis := by
      rw [hnew]
      simp only [Axis.advance, if_pos hnone]
    rw [htaken]
    exact ⟨⟨_, List.mem_cons_self, le_rfl⟩, ⟨_, List.mem_cons_self, le_rfl⟩⟩
  · have hsome : m.measured ≠ 0 := by
      have hlength := List.length_pos_iff.mpr hfirst
      have hdegree : Order.velocity.degree = 1 := rfl
      rw [hrecords.measured, hdegree]
      omega
    obtain ⟨⟨low, hlow, hleast⟩, high, hhigh, hmost⟩ := h hfirst axis
    obtain ⟨hmin, hmax⟩ :=
      Axis.velocity_advance_between hsome hdt (s.position.along axis)
        (m.along axis)
    rw [← hnew] at hmin hmax
    constructor
    · rcases min_le_iff.mp hmin with hold | hnewest
      · exact ⟨low, List.mem_cons_of_mem _ hlow, hleast.trans hold⟩
      · exact ⟨_, List.mem_cons_self, hnewest⟩
    · rcases le_max_iff.mp hmax with hold | hnewest
      · exact ⟨high, List.mem_cons_of_mem _ hhigh, hold.trans hmost⟩
      · exact ⟨_, List.mem_cons_self, hnewest⟩

end Filter

namespace Strategy

/-- After a run of notices the velocity of each known pointer that has gone on
since it began lies, along each coordinate, between two of the velocities from
one accepted sample to the next. -/
theorem velocity_between_measured {notices : List (Notice ℝ)}
    (hword : ∀ n ∈ notices, n.InWord) :
    ∃ table, (ofPlan (.filter .velocity) : Strategy ℝ).told notices =
      .filter .velocity table ∧
      ∀ id, (id ∈ table.known ↔ (Filter.Course.of? id notices).isSome) ∧
        ∀ course, Filter.Course.of? id notices = some course →
          course.earlier ≠ [] → ∀ axis,
          let velocity := ((table.rows.get id).along axis).velocity
          (∃ v ∈ course.velocities axis, v ≤ velocity) ∧
            ∃ v ∈ course.velocities axis, velocity ≤ v := by
  have hbegin : ∀ s : TrackPoint ℝ,
      (Filter.Motion.resting s.time s.position).Records .velocity ⟨s, []⟩ ∧
        (Filter.Motion.resting s.time s.position).IsBounded ⟨s, []⟩ :=
    fun s => ⟨Filter.Motion.records_resting .velocity s,
      fun hsome => absurd rfl hsome⟩
  obtain ⟨table, htold, hrows⟩ := rows_of_courses
    (R := fun m c => m.Records .velocity c ∧ m.IsBounded c)
      (fun _ _ h => h.1.time) hbegin
    (fun s _ _ h hlater => ⟨h.1.advance s, h.2.advance h.1 hlater⟩) hword
  exact ⟨table, htold, fun id => ⟨(hrows id).1, fun course hcourse =>
    ((hrows id).2 course hcourse).2⟩⟩

/-- A pointer that moves for ten milliseconds and then stays. -/
noncomputable def haltingNotices : List (Notice ℝ) :=
  [.add (.whole 0) {1} [.ofPosition ⟨0, 0⟩],
    .add (.whole 10000000) {1} [.ofPosition ⟨1, -1⟩],
    .add (.whole 20000000) {1} [.ofPosition ⟨1, -1⟩]]

theorem velocity_between_measured_halting :
    (∀ n ∈ haltingNotices, n.InWord) ∧
      ∃ table, (ofPlan (.filter .velocity) : Strategy ℝ).told haltingNotices =
          .filter .velocity table ∧
        1 ∈ table.known ∧
        0 ≤ (table.rows.get 1).x.velocity ∧
        (table.rows.get 1).x.velocity ≤ 100 := by
  have hword : ∀ n ∈ haltingNotices, n.InWord := by
    intro n hn
    fin_cases hn <;> exact ⟨_, rfl, by decide⟩
  obtain ⟨table, htold, hrows⟩ := velocity_between_measured hword
  have hcourse : Filter.Course.of? 1 haltingNotices =
      some ⟨⟨20000000, ⟨1, -1⟩⟩, [⟨10000000, ⟨1, -1⟩⟩, ⟨0, ⟨0, 0⟩⟩]⟩ := rfl
  have hvelocities : (Filter.Course.mk ⟨20000000, ⟨1, -1⟩⟩
      [⟨10000000, ⟨1, -1⟩⟩, ⟨0, ⟨0, 0⟩⟩]).velocities .x = [0, 100] := by
    norm_num [Filter.Course.velocities, TrackPoint.velocityTo, Position.along,
      Estimator.seconds_eq]
  obtain ⟨hknown, hbounded⟩ := hrows 1
  obtain ⟨⟨low, hlow, hleast⟩, high, hhigh, hmost⟩ :=
    hbounded _ hcourse (List.cons_ne_nil _ _) .x
  rw [hvelocities] at hlow hhigh
  refine ⟨hword, table, htold, hknown.mpr (by rw [hcourse]; rfl),
    le_trans ?_ hleast,
    le_trans hmost ?_⟩
  · rcases List.mem_pair.mp hlow with rfl | rfl <;> norm_num
  · rcases List.mem_pair.mp hhigh with rfl | rfl <;> norm_num

end Strategy

end PointerMotion
