/-
Events that cannot fail.  All that a replay asks for was checked when the event
was made, but for a pointer that goes down where there is none.
-/
import PointerMotion.Proofs.Batch
import PointerMotion.Proofs.Pause

namespace PointerMotion

variable {α : Type} [Scalar α]

/-- Whether what is delivered is a step whose time, if it brings one, a strategy
can keep. -/
def Plan.Takes (plan : Plan) (delivered : Except InputError (Step α)) : Prop :=
  ∃ step, delivered = .ok step ∧ ∀ time, step.time? = some time →
    plan.HoldsTime time

/-- A position delivered again is a pair that can be read. -/
theorem Point.readable_ofPosition (q : Position α) :
    (ofPosition q).length = 2 ∧ ∃ r, toPosition (ofPosition q) = .ok r :=
  ⟨rfl, q, rfl⟩

namespace MotionEvent

/-- An event of known pointers, whose positions can be read and whose times a
strategy can keep. -/
structure Readable (plan : Plan) (e : MotionEvent α) : Prop where
  range : ∀ id ∈ e.ids, 0 ≤ id ∧ id ≤ 31
  points : ∀ s ∈ e.carried, ∀ p ∈ s.points, p.length = 2 ∧
    ∃ q, p.toPosition = .ok q
  times : ∀ s ∈ e.carried, ∃ time, s.time.toInt = .ok time ∧ plan.HoldsTime time

variable {plan : Plan} {e : MotionEvent α}

theorem Readable.givesPairs (h : e.Readable plan) : e.GivesPairs :=
  fun s hs p hp => (h.points s hs p hp).1

/-- Each sample of such an event is a movement. -/
theorem takes_deliver (hfits : e.Fits) (h : e.Readable plan) {ids : PointerSet}
    (hids : PointerSet.ofInts? e.ids = .ok ids) {s : EventSample α}
    (hs : s ∈ e.carried) :
    plan.Takes (e.deliver ids s) := by
  obtain ⟨time, htime, hholds⟩ := h.times s hs
  have hlength : (e.arrange s.points).length = ids.card :=
    (places_arrange hfits.nodup hids (hfits.sized s hs)).length
  obtain ⟨positions, hpositions⟩ : ∃ positions,
      (e.arrange s.points).mapM Point.toPosition = .ok positions :=
    exists_mapM_eq_ok fun p hp => (h.points s hs p (mem_of_mem_arrange hp)).2
  let m : Movement α :=
    ⟨time, ids, positions,
      (Point.length_of_mapM_toPosition hpositions).trans hlength⟩
  have hread : Movement.read? s.time ids (e.arrange s.points) = .ok m :=
    Movement.read?_eq_ok_iff.mpr ⟨htime, rfl, hpositions⟩
  refine ⟨.add m, ?_, ?_⟩
  · rw [deliver, mapM_pair?_arrange (h.givesPairs s hs)]
    change Step.ofSample ⟨s.time, ids, e.arrange s.points⟩ = _
    rw [Step.ofSample, hread]
    rfl
  · rintro now hnow
    rwa [← Option.some.inj hnow]

/-- The pointer that the action is about is one of the event, if it has any. -/
theorem takes_actionPointer (hfits : e.Fits) (h : e.Readable plan)
    (hne : e.ids ≠ []) :
    plan.Takes (e.actionPointer?.bind fun id =>
      (Step.ofChoice (.listed [id]) : Except InputError (Step α))) := by
  have hindex := hfits.index hne
  have hlt : e.actionIndex.toNat < e.ids.length := by omega
  have hpointer : e.actionPointer? = .ok e.ids[e.actionIndex.toNat] := by
    rw [actionPointer?, List.getElem?_eq_getElem hlt]
  have hrange := h.range _ (List.getElem_mem hlt)
  obtain ⟨gone, hgone, -⟩ := PointerSet.exists_ofInts? (List.nodup_singleton _)
    (List.forall_mem_singleton.mpr hrange)
  refine ⟨.clearPointers gone, ?_, ?_⟩
  · rw [hpointer]
    change Step.ofChoice (.listed [e.ids[e.actionIndex.toNat]]) = _
    rw [Step.ofChoice, PointerChoice.toSet?, hgone]
    rfl
  · rintro time ⟨⟩

/-- All that such an event delivers is taken, unless it lacks the pointer that
goes down. -/
theorem takes_of_mem_steps (hfits : e.Fits) (h : e.Readable plan)
    (hdown : e.action = .pointerDown → e.ids ≠ []) :
    ∀ d ∈ e.steps, plan.Takes d := by
  obtain ⟨ids, hids, -⟩ := PointerSet.exists_ofInts? hfits.nodup h.range
  have hsamples : ∀ d ∈ e.sampleSteps, plan.Takes d := by
    have htimes : ∀ s ∈ e.carried, ∃ time, s.time.toInt = .ok time :=
      fun s hs => (h.times s hs).imp fun _ htime => htime.1
    rw [sampleSteps_eq htimes (idSet?_eq_ok_iff.mpr hids)]
    intro d hd
    obtain ⟨s, hs, rfl⟩ := List.mem_map.mp hd
    exact takes_deliver hfits h hids hs
  have hclear : plan.Takes (.ok .clear : Except InputError (Step α)) := by
    refine ⟨.clear, rfl, ?_⟩
    rintro time ⟨⟩
  rw [steps]
  cases haction : e.action with
  | down | hoverEnter => exact List.forall_mem_cons.mpr ⟨hclear, hsamples⟩
  | pointerDown =>
      exact List.forall_mem_cons.mpr
        ⟨takes_actionPointer hfits h (hdown haction), hsamples⟩
  | move | hoverMove => exact hsamples
  | up | cancel | pointerUp | hoverExit => exact List.forall_mem_nil _

end MotionEvent

namespace Tracker

variable {t : Tracker α}

/-- A step whose time the strategy can keep succeeds when the pause is
finite. -/
theorem error_perform_step_eq_none
    (hpause : ∃ pause, t.settings.stoppedTime = .ok pause) {step : Step α}
    (htime : ∀ time, step.time? = some time → t.strategy.plan.HoldsTime time) :
    (t.perform step.call).error = none := by
  cases step with
  | add m =>
      have hholds : t.strategy.plan.HoldsTime (m.lowest maxPointers).time :=
        htime m.time rfl
      rw [perform_add, error_addMovement_eq_none_iff hholds,
        exists_stoppedBy_iff]
      exact .inl hpause
  | clear => rfl
  | clearPointers gone => rfl

/-- Delivered steps succeed when each of them is taken. -/
theorem error_takeAll_eq_none
    (hpause : ∃ pause, t.settings.stoppedTime = .ok pause)
    {delivered : List (Except InputError (Step α))}
    (h : ∀ d ∈ delivered, t.strategy.plan.Takes d) :
    (t.takeAll delivered).error = none := by
  induction delivered generalizing t with
  | nil => rfl
  | cons d rest ih =>
      obtain ⟨step, rfl, htime⟩ := h d List.mem_cons_self
      rw [takeAll_cons, Outcome.error_andThen_eq_none_iff, take_ok]
      refine ⟨error_perform_step_eq_none hpause htime, ih ?_ ?_⟩
      · rwa [(t.make_perform_step step).1]
      · rw [plan_perform_step]
        exact fun d hd => h d (List.mem_cons_of_mem _ hd)

/-- An event fails before anything happens if a pointer goes down and there is
none. -/
theorem addEvent_of_noPointer {e : MotionEvent α}
    (haction : e.action = .pointerDown) (hids : e.ids = []) :
    t.addEvent e = .failed t .noActionPointer := by
  have hopen : t.openEvent? e = some (.failed t .noActionPointer) := by
    rw [openEvent?, haction]
    dsimp only
    rw [MotionEvent.actionPointer?, hids, List.getElem?_nil]
    rfl
  rw [addEvent, hopen]
  rfl

/-- Whatever a tracker with a finite pause has seen, an accepted event of known
pointers with readable positions and times fails just when a pointer goes down
and the event has none, and then the tracker stays as it is. -/
theorem error_addEvent_ne_none_iff
    (hpause : ∃ pause, t.settings.stoppedTime = .ok pause) {e : MotionEvent α}
    (he : e.Accepted) (hreadable : e.Readable t.strategy.plan) :
    ((t.addEvent e).error ≠ none ↔ e.action = .pointerDown ∧ e.ids = []) ∧
      ((t.addEvent e).error ≠ none → (t.addEvent e).state = t) := by
  have hiff : (t.addEvent e).error ≠ none ↔ e.action = .pointerDown ∧
      e.ids = [] := by
    constructor
    · contrapose!
      intro hdown
      rw [← takeAll_eventSteps]
      exact error_takeAll_eq_none hpause
        (MotionEvent.takes_of_mem_steps he.fits hreadable hdown)
    · rintro ⟨haction, hids⟩
      rw [addEvent_of_noPointer haction hids]
      exact Option.some_ne_none _
  refine ⟨hiff, ?_⟩
  intro hfailed
  obtain ⟨haction, hids⟩ := hiff.mp hfailed
  rw [addEvent_of_noPointer haction hids]
  rfl

/-- A pointer goes down, and none is listed. -/
def nobodyDown : MotionEvent Float where
  action := .pointerDown
  ids := []
  history := []
  final := ⟨.whole 10, []⟩
  actionIndex := 0

/-- With a pointer and without, after a run in which one call is refused. -/
theorem error_addEvent_nobodyDown :
    let t := (ofStrategy .int2 Settings.standard).after mixedCalls
    (t.addEvent pairDown).error = none ∧ (t.addEvent nobodyDown).error ≠ none ∧
      (t.addEvent nobodyDown).state = t := by
  intro t
  have hpause : ∃ pause, t.settings.stoppedTime = .ok pause := by
    rw [(make_after (ofStrategy .int2 Settings.standard) mixedCalls).1]
    exact ⟨40000000, rfl⟩
  have hplan : t.strategy.plan = .filter .acceleration :=
    plan_after_ofStrategy .int2 _ mixedCalls
  have hpair : pairDown.Readable t.strategy.plan := by
    rw [hplan]
    refine ⟨by decide, ?_, ?_⟩
    · simp [pairDown, MotionEvent.carried, Point.readable_ofPosition]
    · simpa [pairDown, MotionEvent.carried, Reading.toInt, Plan.HoldsTime] using
        (by decide : Filter.fitsWord 0 ∧ Filter.fitsWord 5 ∧ Filter.fitsWord 10)
  have hnobody : nobodyDown.Readable t.strategy.plan := by
    rw [hplan]
    refine ⟨by decide, ?_, ?_⟩
    · simp [nobodyDown, MotionEvent.carried]
    · simpa [nobodyDown, MotionEvent.carried, Reading.toInt,
        Plan.HoldsTime] using
        (by decide : Filter.fitsWord 10)
  have hpairDown := error_addEvent_ne_none_iff hpause
    (.made (rfl : pairDown.check = .ok pairDown)) hpair
  have hnobodyDown := error_addEvent_ne_none_iff hpause
    (.made (rfl : nobodyDown.check = .ok nobodyDown)) hnobody
  have hfailed := hnobodyDown.1.mpr ⟨rfl, rfl⟩
  refine ⟨?_, hfailed, hnobodyDown.2 hfailed⟩
  by_contra hne
  exact absurd (hpairDown.1.mp hne).2 (by decide)

end Tracker

end PointerMotion
