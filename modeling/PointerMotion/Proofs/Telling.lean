/-
What a tracker tells its strategy, and when a pointer has just begun by that
alone: one of its samples has been accepted and none since.
-/
import PointerMotion.Proofs.Course

namespace PointerMotion

variable {α : Type} [Scalar α]

def Notice.ofMovement (m : Movement α) : Notice α :=
  .add (.whole m.time) m.ids (m.positions.map Point.ofPosition)

namespace Tracker

/-- What a movement tells the strategy.  After a stop it comes behind a clear,
and one whose pause cannot be measured is not told at all. -/
def tellsMovement (t : Tracker α) (m : Movement α) : List (Notice α) :=
  match t.stoppedBy m.ids m.time with
  | .ok true => [.clear, .ofMovement m]
  | .ok false => [.ofMovement m]
  | .error _ => []

def tells (t : Tracker α) : Step α → List (Notice α)
  | .add m => t.tellsMovement (m.lowest maxPointers)
  | .clear => [.clear]
  | .clearPointers gone => [.clearPointers gone]

def tellsAll (t : Tracker α) : List (Step α) → List (Notice α)
  | [] => []
  | step :: rest =>
      t.tells step ++ (t.perform step.call).state.tellsAll rest

theorem strategy_addMovement_eq (t : Tracker α) (m : Movement α) :
    (t.addMovement m).state.strategy =
      t.strategy.told (t.tellsMovement m) := by
  rw [tellsMovement]
  rcases t.addMovement_cases m with ⟨e, hstopped, hadd⟩ | ⟨stopped, hstopped⟩
  · rw [hadd, hstopped]
    rfl
  · rw [addMovement_of_stoppedBy hstopped, hstopped]
    cases stopped <;> rfl

theorem strategy_perform (t : Tracker α) (step : Step α) :
    (t.perform step.call).state.strategy = t.strategy.told (t.tells step) := by
  cases step with
  | add m =>
      rw [perform_add]
      exact t.strategy_addMovement_eq (m.lowest maxPointers)
  | clear => rfl
  | clearPointers gone => rfl

/-- The strategy of a tracker knows what it has been told. -/
theorem strategy_run (t : Tracker α) (steps : List (Step α)) :
    (t.run steps).strategy = t.strategy.told (t.tellsAll steps) := by
  induction steps generalizing t with
  | nil => rfl
  | cons step rest ih =>
      rw [run_cons, ih, strategy_perform, tellsAll]
      exact List.foldl_append.symm

theorem inWord_of_mem_tellsMovement {t : Tracker α} {m : Movement α}
    (hword : Filter.fitsWord m.time = true) {n : Notice α}
    (hn : n ∈ t.tellsMovement m) : n.InWord := by
  have hadd : (Notice.ofMovement m).InWord := ⟨m.time, rfl, hword⟩
  rw [tellsMovement] at hn
  split at hn
  · rcases List.mem_pair.mp hn with rfl | rfl
    · trivial
    · exact hadd
  · exact List.mem_singleton.mp hn ▸ hadd
  · cases hn

theorem inWord_of_mem_tells {t : Tracker α} {step : Step α}
    (hword : ∀ time, step.time? = some time → Filter.fitsWord time = true)
    {n : Notice α} (hn : n ∈ t.tells step) : n.InWord := by
  cases step with
  | add m =>
      rw [tells] at hn
      apply inWord_of_mem_tellsMovement _ hn
      exact hword m.time rfl
  | clear => exact List.mem_singleton.mp hn ▸ trivial
  | clearPointers gone => exact List.mem_singleton.mp hn ▸ trivial

theorem inWord_of_mem_tellsAll {t : Tracker α} {steps : List (Step α)}
    (hword : ∀ time ∈ Step.times steps, Filter.fitsWord time = true)
    {n : Notice α} (hn : n ∈ t.tellsAll steps) : n.InWord := by
  induction steps generalizing t with
  | nil => cases hn
  | cons step rest ih =>
      rcases List.mem_append.mp hn with hfirst | hrest
      · apply inWord_of_mem_tells _ hfirst
        intro time htime
        exact hword time (List.mem_filterMap.mpr
          ⟨step, List.mem_cons_self, htime⟩)
      · apply ih _ hrest
        intro time htime
        exact hword time
          (List.Sublist.mem htime (Step.times_sublist_cons step rest))

end Tracker

/-- Whether a filter has accepted a sample of a pointer since the pointer last
began, and no other one. -/
def Plan.hasJustBegun (plan : Plan) (id : PointerId)
    (notices : List (Notice α)) : Bool :=
  match plan with
  | .ofTrack _ => false
  | .filter _ => (Filter.Course.of? id notices).any (·.earlier.isEmpty)

/-- Whether a filter has begun with a pointer and measured no velocity of it
yet. -/
def Sight.unmeasured {α : Type} (v : Sight α) : Bool :=
  v.motion?.any fun m => m.measured = 0

theorem Sight.unmeasured_of_plan {α : Type} {v : Sight α} {plan : TrackPlan}
    (hplan : v.plan = .ofTrack plan) : v.unmeasured = false := by
  cases v with
  | ofTrack plan' capacity glimpses => rfl
  | filter order motion? => cases hplan

/-- A motion has measured nothing as long as its course has one sample. -/
theorem Filter.Motion.Records.measured_eq_zero_iff {order : Filter.Order}
    {m : Filter.Motion α} {c : Filter.Course α} (h : m.Records order c) :
    m.measured = 0 ↔ c.earlier = [] := by
  have hdegree : 0 < order.degree := by cases order <;> decide
  rw [h.measured, ← List.length_eq_zero_iff]
  omega

/-- What a filter has measured of a pointer shows in what it has been told. -/
theorem Strategy.unmeasured_told (order : Filter.Order)
    {notices : List (Notice α)} (hword : ∀ n ∈ notices, n.InWord)
    (id : PointerId) :
    (((ofPlan (.filter order)).told notices).sight id).unmeasured =
      Plan.hasJustBegun (.filter order) id notices := by
  obtain ⟨table, htold, hrel⟩ :=
    motion?_of_courses (fun _ _ h => h.time)
      (Filter.Motion.records_resting order) (fun s _ _ h _ => h.advance s) hword
  have hid := hrel id
  rw [htold, Plan.hasJustBegun]
  show (table.motion? id).any (fun m => m.measured = 0) = _
  generalize Filter.Course.of? id notices = course? at hid ⊢
  generalize table.motion? id = motion? at hid ⊢
  cases hid with
  | none => rfl
  | some hrecords =>
      apply Bool.eq_iff_iff.mpr
      rw [Option.any_some, Option.any_some, decide_eq_true_iff,
        List.isEmpty_iff]
      exact hrecords.measured_eq_zero_iff

/-- What a tracker's filter has measured of a pointer shows in what the run told
it. -/
theorem Tracker.unmeasured_run (strategy : StrategyId) (settings : Settings α)
    {steps : List (Step α)}
    (htimes : ∀ time ∈ Step.times steps, strategy.plan.HoldsTime time)
    (id : PointerId) :
    (((ofStrategy strategy settings).run steps).strategy.sight id).unmeasured =
      strategy.plan.hasJustBegun id
        ((ofStrategy strategy settings).tellsAll steps) := by
  cases hplan : strategy.plan with
  | ofTrack plan =>
      apply Sight.unmeasured_of_plan
      rw [Sight.plan_sight, run, plan_after_ofStrategy, hplan]
  | filter order =>
      rw [hplan] at htimes
      rw [strategy_run, ofStrategy, hplan]
      apply Strategy.unmeasured_told
      intro n hn
      exact inWord_of_mem_tellsAll htimes hn

end PointerMotion
