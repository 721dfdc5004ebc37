/-
What a filter's motion of a pointer records: the samples accepted since the
pointer last began, followed by their times alone.
-/
import PointerMotion.Proofs.Coordinate
import PointerMotion.Proofs.Notice

namespace PointerMotion

variable {α : Type}

namespace Filter

/-- The samples accepted of a pointer since it last began, with the latest
apart. -/
structure Course (α : Type) where
  latest : TrackPoint α
  earlier : List (TrackPoint α)

/-- The course of a pointer after a sample. -/
def Course.next (s : TrackPoint α) : Option (Course α) → Course α
  | none => ⟨s, []⟩
  | some c =>
      if s.time ≤ c.latest.time then ⟨s, []⟩
      else if minElapsed ≤ s.time - c.latest.time then
        ⟨s, c.latest :: c.earlier⟩
      else c

variable [Scalar α]

/-- The course of a pointer in a run of notices, if the pointer is known at its
end. -/
def Course.of? (id : PointerId) (notices : List (Notice α)) :
    Option (Course α) :=
  Notice.followAll id next notices none

/-- A motion that records a course: it stands at the latest sample, has measured
a derivative with each sample after the first as far as the order goes, and
holds zero for the derivatives that are not measured yet. -/
structure Motion.Records (order : Order) (m : Motion α)
    (c : Course α) : Prop where
  time : m.time = c.latest.time
  position : ∀ axis, (m.along axis).position = c.latest.position.along axis
  measured : m.measured = min order.degree c.earlier.length
  velocity : m.measured < 1 → ∀ axis, (m.along axis).velocity = 0.0
  acceleration : m.measured < 2 → ∀ axis, (m.along axis).acceleration = 0.0

variable {order : Order} {m : Motion α} {c : Course α}

theorem Motion.records_resting (order : Order) (s : TrackPoint α) :
    (Motion.resting s.time s.position).Records order ⟨s, []⟩ where
  time := rfl
  position := fun axis => by rw [along_resting]; rfl
  measured := (Nat.min_zero _).symm
  velocity := fun _ axis => by rw [along_resting]; rfl
  acceleration := fun _ axis => by rw [along_resting]; rfl

theorem Axis.position_advance (order : Order) (measured : Nat) (dt position : α)
    (a : Axis α) :
    (a.advance order measured dt position).position = position := by
  unfold advance
  split
  · rfl
  · cases order <;> rfl

/-- The acceleration is left alone until a velocity has been measured, and by
the lower order. -/
theorem Axis.acceleration_advance {measured : Nat}
    (h : measured = 0 ∨ order = .velocity) (dt position : α) (a : Axis α) :
    (a.advance order measured dt position).acceleration = a.acceleration := by
  unfold advance
  split
  · rfl
  · next hmeasured =>
      obtain rfl := h.resolve_left hmeasured
      rfl

/-- A motion that goes on with a sample records the course that goes on with
it. -/
theorem Motion.Records.advance (h : m.Records order c) (s : TrackPoint α) :
    (m.advance order s.time s.position).Records order ⟨s,
        c.latest :: c.earlier⟩ := by
  have hmeasured : (m.advance order s.time s.position).measured =
      min (m.measured + 1) order.degree := rfl
  have hbefore := h.measured
  constructor
  case time => rfl
  case position =>
    intro axis
    rw [along_advance, Axis.position_advance]
  case measured =>
    rw [hmeasured, List.length_cons]
    omega
  case velocity =>
    intro hnone
    have hdegree : 1 ≤ order.degree := by cases order <;> decide
    omega
  case acceleration =>
    intro hfew axis
    have hkind : m.measured = 0 ∨ order = .velocity := by
      cases order with
      | velocity => exact .inr rfl
      | acceleration =>
          have htwo : Order.acceleration.degree = 2 := rfl
          omega
    have hfewer : m.measured < 2 := by omega
    rw [along_advance, Axis.acceleration_advance hkind,
      h.acceleration hfewer axis]

/-- What holds of a pointer that begins, and of one that goes on if it held
before, is preserved by every sample: the time of the motion is that of the
course, so both begin, go on or pass over a sample together. -/
theorem Motion.rel_next {R : Motion α → Course α → Prop}
    (htime : ∀ m c, R m c → m.time = c.latest.time)
    (hbegin : ∀ s, R (.resting s.time s.position) ⟨s, []⟩)
    (hadvance : ∀ s m c, R m c → c.latest.time < s.time →
      R (m.advance order s.time s.position) ⟨s, c.latest :: c.earlier⟩)
    (s : TrackPoint α) {known? : Option (Motion α)}
      {course? : Option (Course α)} (h : Option.Rel R known? course?) :
    R (Motion.next order s.time s.position known?) (Course.next s course?) := by
  cases h with
  | none => exact hbegin s
  | @some m c hrel =>
      rw [Motion.next, Course.next, htime m c hrel]
      by_cases hbefore : s.time ≤ c.latest.time
      · rw [if_pos hbefore, if_pos hbefore]
        exact hbegin s
      · rw [if_neg hbefore, if_neg hbefore]
        by_cases hearly : s.time - c.latest.time < minElapsed
        · rw [if_pos hearly, if_neg (Int.not_le.mpr hearly)]
          exact hrel
        · rw [if_neg hearly, if_pos (Int.not_lt.mp hearly)]
          exact hadvance s m c hrel (Int.not_le.mp hbefore)

end Filter

namespace Strategy

variable [Scalar α]

variable {order : Filter.Order} {R : Filter.Motion α → Filter.Course α → Prop}

/-- What holds between the motion and the course of a pointer that begins, and
is preserved when the pointer goes on, holds of every pointer after a run of
notices: it has a motion if and only if it has a course. -/
theorem motion?_of_courses (htime : ∀ m c, R m c → m.time = c.latest.time)
    (hbegin : ∀ s, R (.resting s.time s.position) ⟨s, []⟩)
    (hadvance : ∀ s m c, R m c → c.latest.time < s.time →
      R (m.advance order s.time s.position) ⟨s, c.latest :: c.earlier⟩)
    {notices : List (Notice α)} (hword : ∀ n ∈ notices, n.InWord) :
    ∃ table, (ofPlan (.filter order) : Strategy α).told notices =
        .filter order table ∧
      ∀ id, Option.Rel R (table.motion? id) (Filter.Course.of? id notices) := by
  obtain ⟨table, htold, hmotion⟩ := told_filter order .empty hword
  refine ⟨table, htold, fun id => ?_⟩
  have hnew : (Filter.Table.empty : Filter.Table α).motion? id = none := by
    simp [Filter.Table.motion?, Filter.Table.empty]
  rw [hmotion id, hnew]
  exact Notice.rel_followAll
    (fun s _ _ => Filter.Motion.rel_next htime hbegin hadvance s)
      id notices .none

/-- The pointers that a filter knows are those with a course. -/
theorem rows_of_courses (htime : ∀ m c, R m c → m.time = c.latest.time)
    (hbegin : ∀ s, R (.resting s.time s.position) ⟨s, []⟩)
    (hadvance : ∀ s m c, R m c → c.latest.time < s.time →
      R (m.advance order s.time s.position) ⟨s, c.latest :: c.earlier⟩)
    {notices : List (Notice α)} (hword : ∀ n ∈ notices, n.InWord) :
    ∃ table, (ofPlan (.filter order) : Strategy α).told notices =
        .filter order table ∧
      ∀ id, (id ∈ table.known ↔ (Filter.Course.of? id notices).isSome) ∧
        ∀ course, Filter.Course.of? id notices = some course →
          R (table.rows.get id) course := by
  obtain ⟨table, htold, hrel⟩ := motion?_of_courses htime hbegin hadvance hword
  refine ⟨table, htold, fun id => ?_⟩
  have hid := hrel id
  rw [Filter.Table.motion?] at hid
  generalize Filter.Course.of? id notices = course? at hid ⊢
  by_cases hknown : id ∈ table.known
  · rw [if_pos hknown] at hid
    cases hid with
    | some hrow => simpa [hknown] using hrow
  · rw [if_neg hknown] at hid
    cases hid
    simp [hknown]

/-- After a run of notices a filter knows the pointers that the last movement
read to its end had and that have not been cleared since, and the row of each of
them records its course, for either order and whatever fails on the way. -/
theorem rows_record_courses (order : Filter.Order) {notices : List (Notice α)}
    (hword : ∀ n ∈ notices, n.InWord) :
    ∃ table, (ofPlan (.filter order) : Strategy α).told notices =
      .filter order table ∧
      ∀ id, (id ∈ table.known ↔
          ∃ earlier n later, notices = earlier ++ n :: later ∧ n.Shows id ∧
            ∀ n' ∈ later, n'.Spares id) ∧
        (id ∈ table.known → ∃ course,
          Filter.Course.of? id notices = some course ∧
          (table.rows.get id).Records order course) := by
  obtain ⟨table, htold, hrows⟩ := rows_of_courses (fun _ _ h => h.time)
    (Filter.Motion.records_resting order) (fun s _ _ h _ => h.advance s) hword
  refine ⟨table, htold, fun id => ?_⟩
  obtain ⟨hknown, hrecords⟩ := hrows id
  refine ⟨hknown.trans
    (Notice.isSome_followAll_iff id Filter.Course.next notices), ?_⟩
  intro hid
  obtain ⟨course, hcourse⟩ := Option.isSome_iff_exists.mp (hknown.mp hid)
  exact ⟨course, hcourse, hrecords course hcourse⟩

/-- A run in which pointer 1 goes on once: a sample of it comes too early, and
the last one stands before a point of pointer 2 that cannot be read. -/
def wanderingNotices : List (Notice Float) :=
  [.add (.whole 0) {1} [.ofPosition ⟨0.0, 0.0⟩],
    .add (.whole 1000000) (.ofList [1, 2]) [.ofPosition ⟨5.0, 5.0⟩,
    .ofPosition ⟨1.0, 1.0⟩],
    .add (.whole 10000000) (.ofList [1, 2]) [.ofPosition ⟨3.0, 1.0⟩, []],
    .clearPointers {2}]

theorem rows_record_courses_wandering :
    (∀ n ∈ wanderingNotices, n.InWord) ∧
      ∃ table,
        (ofPlan (.filter .acceleration) : Strategy Float).told
            wanderingNotices =
          .filter .acceleration table ∧
        1 ∈ table.known ∧ 2 ∉ table.known ∧
        (table.rows.get 1).Records .acceleration
          ⟨⟨10000000, ⟨3.0, 1.0⟩⟩, [⟨0, ⟨0.0, 0.0⟩⟩]⟩ := by
  have hword : ∀ n ∈ wanderingNotices, n.InWord := by decide +kernel
  obtain ⟨table, htold, hrows⟩ := rows_record_courses .acceleration hword
  have hcourse : Filter.Course.of? 1 wanderingNotices =
      some ⟨⟨10000000, ⟨3.0, 1.0⟩⟩, [⟨0, ⟨0.0, 0.0⟩⟩]⟩ := rfl
  have hother : Filter.Course.of? 2 wanderingNotices = none := rfl
  have hknown : 1 ∈ table.known := by
    refine (hrows 1).1.mpr ⟨[_], _, [_, _], rfl, ⟨_, rfl, by decide⟩, ?_⟩
    intro n hn
    rcases List.mem_pair.mp hn with rfl | rfl
    · exact ⟨_, rfl⟩
    · show (1 : PointerId) ∉ ({2} : PointerSet)
      decide
  refine ⟨hword, table, htold, hknown, ?_, ?_⟩
  · intro hmember
    obtain ⟨course, hsome, -⟩ := (hrows 2).2 hmember
    cases hother.symm.trans hsome
  · obtain ⟨course, hsome, hrow⟩ := (hrows 1).2 hknown
    cases hcourse.symm.trans hsome
    exact hrow

end Strategy

end PointerMotion
