/-
The movements of one instant.  A strategy that merges equal times keeps the
last of them, and what came before it at that instant leaves no trace.
-/
import Mathlib.Data.List.Chain
import PointerMotion.Proofs.Notice
import PointerMotion.Proofs.Roster

namespace PointerMotion

variable {α : Type}

theorem TrackPlan.mergesEqualTimes_iff {plan : TrackPlan} :
    plan.mergesEqualTimes = true ↔ plan ≠ .average := by
  cases plan <;> simp [mergesEqualTimes]

namespace History

@[simp] theorem count_append_ne_zero (h : History α) (m : Movement α) :
    (h.append m).count ≠ 0 := by
  have hcount : (h.append m).count = min (h.count + 1) h.capacity := rfl
  have hcapacity := h.capacity_pos
  omega

/-- A movement that takes the place of one just stored goes where that one
went. -/
theorem replaceNewest_append (h : History α) (m n : Movement α) :
    (h.append m).replaceNewest n = h.append n := by
  rw [replaceNewest, if_neg (h.count_append_ne_zero m)]
  simp [append]

theorem replaceNewest_replaceNewest (h : History α) (m n : Movement α) :
    (h.replaceNewest m).replaceNewest n = h.replaceNewest n := by
  by_cases hempty : h.count = 0
  · have hstored : ∀ m, h.replaceNewest m = h.append m := fun m => if_pos hempty
    rw [hstored, hstored, replaceNewest_append]
  · simp [replaceNewest, hempty]

/-- Whether neighbours in a history differ in their times. -/
def SeparatesInstants (h : History α) : Prop :=
  h.times.IsChain (· ≠ ·)

theorem SeparatesInstants.record {plan : TrackPlan}
    (hmerges : plan.mergesEqualTimes = true) {h : History α}
    (hseparate : h.SeparatesInstants) (m : Movement α) :
    (Strategy.record plan h m).state.SeparatesInstants := by
  rw [SeparatesInstants, times_record]
  cases htimes : h.times with
  | nil =>
      rw [if_neg (fun hmerged => nomatch hmerged.2)]
      exact (List.isChain_singleton _).take h.capacity
  | cons newest rest =>
      rw [SeparatesInstants, htimes] at hseparate
      split
      next hmerged =>
        obtain rfl : newest = m.time := Option.some.inj hmerged.2
        exact hseparate
      next hdiffers =>
        have hne : m.time ≠ newest :=
          fun heq => hdiffers ⟨hmerges, by rw [heq]; rfl⟩
        exact (List.IsChain.cons_cons hne hseparate).take h.capacity

end History

namespace Strategy

/-- Of two movements of one time that are merged the later one alone counts. -/
theorem record_record {plan : TrackPlan}
    (hmerges : plan.mergesEqualTimes = true) (h : History α) {m n : Movement α}
    (htime : m.time = n.time) :
    (record plan (record plan h m).state n).state =
      (record plan h n).state := by
  rw [state_record plan _ n, h.newest?_record plan m,
    if_pos ⟨hmerges, congrArg some htime⟩, state_record, state_record, htime]
  split
  · exact h.replaceNewest_replaceNewest m n
  · exact h.replaceNewest_append m n

theorem state_record_average (h : History α) (m : Movement α) :
    (record .average h m).state = h.append m := by
  rw [state_record, if_neg (fun hmerged => absurd hmerged.1 Bool.false_ne_true)]

end Strategy

section Notices

variable [Scalar α]

/-- Whether a notice adds a movement: its time and its points are read as those
of the movement. -/
def Notice.Adds (m : Movement α) : Notice α → Prop
  | .add time ids points =>
      time.toInt = .ok m.time ∧ ids = m.ids ∧
        points.mapM Point.toPosition = .ok m.positions
  | _ => False

namespace Strategy

variable (plan : TrackPlan) (h : History α)

theorem take_of_adds {n : Notice α} {m : Movement α} (hadds : n.Adds m) :
    (ofTrack plan h).take n = (record plan h m).map (ofTrack plan) := by
  cases n with
  | add time ids points =>
      rw [take, add, Movement.make?_eq_ok_iff.mpr hadds]; rfl
  | clear => exact hadds.elim
  | clearPointers gone => exact hadds.elim

/-- A history strategy stays one, with as many slots, and goes on to separate
the instants. -/
theorem take_ofTrack (n : Notice α) :
    ∃ after, ((ofTrack plan h).take n).state = ofTrack plan after ∧
      after.capacity = h.capacity ∧
      (plan.mergesEqualTimes = true → h.SeparatesInstants →
        after.SeparatesInstants) := by
  cases n with
  | add time ids points =>
      cases hread : Movement.make? time ids points with
      | ok m =>
          refine ⟨(record plan h m).state, ?_, capacity_record plan h m, ?_⟩
          · rw [take, add, hread]
            rfl
          · exact fun hmerges hseparate => hseparate.record hmerges m
      | error e =>
          refine ⟨h, ?_, rfl, fun _ hseparate => hseparate⟩
          rw [take, add, hread]
          rfl
  | clear =>
      refine ⟨h.clear, rfl, h.capacity_clear, fun _ _ => ?_⟩
      simp [History.SeparatesInstants, History.times]
  | clearPointers gone =>
      refine ⟨h.removePointers gone, rfl, h.capacity_removePointers gone,
        fun _ hseparate => ?_⟩
      rwa [History.SeparatesInstants, History.times_removePointers]

theorem told_ofTrack (notices : List (Notice α)) :
    ∃ after, (ofTrack plan h).told notices = ofTrack plan after ∧
      after.capacity = h.capacity ∧
      (plan.mergesEqualTimes = true → h.SeparatesInstants →
        after.SeparatesInstants) := by
  induction notices generalizing h with
  | nil => exact ⟨h, rfl, rfl, fun _ hseparate => hseparate⟩
  | cons n rest ih =>
      obtain ⟨between, hbetween, hcapacity, hfirst⟩ := take_ofTrack plan h n
      obtain ⟨after, hafter, hcapacity', hrest⟩ := ih between
      refine ⟨after, ?_, hcapacity'.trans hcapacity, ?_⟩
      · rw [told_cons, hbetween, hafter]
      · exact fun hmerges hseparate => hrest hmerges (hfirst hmerges hseparate)

/-- Of the movements of one instant the last one counts, in a strategy that
merges equal times.  After any run of notices, refused ones included, a movement
that is added behind another one of its time leaves the history that it leaves
alone, slot by slot, and neighbours in the history differ in their times.  A
strategy that does not merge stores every movement in front of those that it
has. -/
theorem told_adds_of_one_time (notices : List (Notice α)) :
    ∃ history, (ofPlan (.ofTrack plan) : Strategy α).told notices =
      ofTrack plan history ∧
      (plan ≠ .average →
        (∀ earlier later m n, Notice.Adds m earlier → Notice.Adds n later →
          m.time = n.time →
          (ofTrack plan history).told [earlier, later] =
            (ofTrack plan history).told [later]) ∧
        history.newestFirst.IsChain fun newer older =>
          newer.time ≠ older.time) ∧
      (plan = .average → ∀ notice m, Notice.Adds m notice →
        (ofTrack plan history).told [notice] = ofTrack plan (history.append m) ∧
          (history.append m).newestFirst =
            (m :: history.newestFirst).take TrackPlan.historySize) := by
  obtain ⟨history, htold, hcapacity, hkeeps⟩ :=
    told_ofTrack plan (History.ofCapacity TrackPlan.historySize (by decide))
      notices
  refine ⟨history, htold, ?_, ?_⟩
  · intro hplan
    have hmerges := TrackPlan.mergesEqualTimes_iff.mpr hplan
    refine ⟨?_, ?_⟩
    · intro earlier later m n hearlier hlater htime
      have hfirst := congrArg Outcome.state (take_of_adds plan history hearlier)
      have hsecond :=
        congrArg Outcome.state
          (take_of_adds plan (record plan history m).state hlater)
      have halone := congrArg Outcome.state (take_of_adds plan history hlater)
      calc (ofTrack plan history).told [earlier, later]
          = (((ofTrack plan history).take earlier).state.take later).state :=
            rfl
        _ = ((ofTrack plan (record plan history m).state).take
            later).state := by rw [hfirst]; rfl
        _ = ofTrack plan (record plan (record plan history m).state n).state :=
          hsecond
        _ = ofTrack plan (record plan history n).state := by
              rw [record_record hmerges history htime]
        _ = (ofTrack plan history).told [later] := halone.symm
    · have hseparate :=
        hkeeps hmerges (by simp [History.SeparatesInstants, History.times])
      exact List.isChain_map _ |>.mp hseparate
  · rintro rfl notice m hadds
    have hstored := congrArg Outcome.state (take_of_adds .average history hadds)
    refine ⟨?_, ?_⟩
    · rw [← state_record_average]
      exact hstored
    · rw [History.newestFirst_append, hcapacity, History.capacity_ofCapacity]

end Strategy

end Notices

/-- A run that fills all slots; its last movement but one is refused, and the
last one is late. -/
def crampedNotices : List (Notice Float) :=
  (List.range 20).map
    (fun i => .add (.whole (10 * i)) {1} [.ofPosition ⟨1.0, 2.0⟩]) ++
    [.clearPointers {1}, .add (.whole 200) {1} [],
    .add (.whole 150) {1} [.ofPosition ⟨3.0, 4.0⟩]]

theorem Strategy.told_adds_of_one_time_cramped :
    ∃ history, (ofPlan (.ofTrack .impulse)).told crampedNotices =
      ofTrack .impulse history ∧
      (ofTrack .impulse history).told
          [.add (.whole 160) (.ofList [1, 2])
              [.ofPosition ⟨5.0, 6.0⟩, .ofPosition ⟨7.0, 8.0⟩],
            .add (.scalar 160.5) {3} [.ofPosition ⟨9.0, 9.0⟩]] =
        (ofTrack .impulse history).told
          [.add (.scalar 160.5) {3} [.ofPosition ⟨9.0, 9.0⟩]] := by
  obtain ⟨history, htold, hmerges, -⟩ :=
    told_adds_of_one_time .impulse crampedNotices
  refine ⟨history, htold, (hmerges (by decide)).1 _ _
    ⟨160, .ofList [1, 2], [⟨5.0, 6.0⟩, ⟨7.0, 8.0⟩], by decide⟩ ⟨160, {3},
    [⟨9.0, 9.0⟩], by decide⟩
    ⟨rfl, rfl, rfl⟩ ⟨?_, rfl, rfl⟩ rfl⟩
  decide +kernel

end PointerMotion
