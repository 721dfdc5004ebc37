/-
Clocks that are ahead.  Times are compared and subtracted as whole numbers
before anything becomes a scalar, so no rounding can tell two clocks apart.
-/
import PointerMotion.Proofs.Coordinate

namespace PointerMotion

variable {α : Type}

/-- The movement as a clock that is ahead dates it. -/
def Movement.delayed (delay : Int) (m : Movement α) : Movement α :=
  { m with time := m.time + delay }

def Step.delayed (delay : Int) : Step α → Step α
  | add m => add (m.delayed delay)
  | clear => clear
  | clearPointers gone => clearPointers gone

theorem StrategyId.plan_eq_average_iff (strategy : StrategyId) :
    strategy.plan = .ofTrack .average ↔ strategy = .legacy := by
  cases strategy <;> decide

variable [Scalar α] {delay : Int}

/-- On a clock that is ahead all coordinates are what they are. -/
def Correspondence.delayed (delay : Int) : Correspondence α :=
  .sharing delay fun _ a b => a = b

theorem Step.matched_delayed (delay : Int) (step : Step α) :
    step.Matched (.delayed delay) (step.delayed delay) := by
  cases step with
  | add m =>
      refine .add ⟨rfl, rfl, ?_⟩
      intro id
      have hsame : (m.delayed delay).position? id = m.position? id := rfl
      rw [hsame]
      cases m.position? id with
      | none => exact .none
      | some p => exact .some fun a b hab => hab ▸ rfl
  | clear => exact .clear
  | clearPointers gone => exact .clearPointers gone

omit [Scalar α] in
/-- Estimators that share all coordinates differ in their time alone. -/
theorem Estimator.Shares.eq_delayed {plan : Plan} {e e' : Estimator α}
    (h : e.Shares plan delay (· = ·) e') :
    e' = { e with
      time := if plan = .ofTrack .average ∧
      e.degree = 0 then 0 else e.time + delay } := by
  have hx : e.x = e'.x := h.along .x .x rfl
  have hy : e.y = e'.y := h.along .y .y rfl
  obtain ⟨time, degree, confidence, x, y⟩ := e'
  rw [hx, hy, ← h.time, ← h.degree, ← h.confidence fun _ _ => rfl]

namespace Tracker

theorem matched_run_delayed (strategy : StrategyId) (settings : Settings α)
    (delay : Int) {steps : List (Step α)} (htimes : ∀ time ∈ Step.times steps,
      (strategy.plan.HoldsTime (time + delay) ↔ strategy.plan.HoldsTime time)) :
    ((ofStrategy strategy settings).run steps).Matched (.delayed delay)
      ((ofStrategy strategy settings).run
        (steps.map (Step.delayed delay))) := by
  apply (Matched.ofStrategy (.delayed delay) strategy settings).run
  · rw [List.forall₂_map_right_iff, List.forall₂_same]
    exact fun step _ => step.matched_delayed delay
  · rw [plan_ofStrategy]
    exact htimes

/-- A delay of all times leaves every answer after every step as it is, but for
the time of an estimate, which is delayed as well.  The estimate of no degree
that the legacy strategy gives has no time to be delayed. -/
theorem answers_run_delayed (strategy : StrategyId) (settings : Settings α)
    (delay : Int) {steps : List (Step α)} (htimes : ∀ time ∈ Step.times steps,
      (strategy.plan.HoldsTime (time + delay) ↔ strategy.plan.HoldsTime time))
    (count : Nat) :
    let t := (ofStrategy strategy settings).run (steps.take count)
    let u := (ofStrategy strategy settings).run
      ((steps.map (Step.delayed delay)).take count)
    u.current = t.current ∧ u.active? = t.active? ∧
      ∀ id, u.velocity id = t.velocity id ∧
      u.answer id = ((t.answer id).1, { (t.answer id).2 with
        time :=
          if (t.answer id).1 ∧
          ¬ (strategy = .legacy ∧ (t.answer id).2.degree = 0) then
            (t.answer id).2.time + delay
          else 0 }) := by
  intro t u
  have hmatched : t.Matched (.delayed delay) u := by
    have htaken : u = (ofStrategy strategy settings).run
        ((steps.take count).map (Step.delayed delay)) := by rw [List.map_take]
    rw [htaken]
    apply matched_run_delayed
    intro time htime
    exact htimes time
      (List.Sublist.mem htime
          ((List.take_sublist count steps).filterMap Step.time?))
  have hplan : t.strategy.plan = strategy.plan :=
    plan_after_ofStrategy strategy settings _
  refine ⟨hmatched.current, congrArg List.getLast? hmatched.introduced, ?_⟩
  intro id
  have hestimate := hmatched.estimate id
  rw [velocity, velocity, answer, answer]
  generalize t.estimate id = known? at hestimate
  generalize u.estimate id = known?' at hestimate
  cases hestimate with
  | none => exact ⟨rfl, rfl⟩
  | @some e e' hshares =>
      have htimeless : (t.strategy.plan = .ofTrack .average ∧ e.degree = 0) ↔
          strategy = .legacy ∧ e.degree = 0 := by
        rw [hplan, StrategyId.plan_eq_average_iff]
      obtain rfl := hshares.eq_delayed
      refine ⟨rfl, ?_⟩
      by_cases hlegacy : strategy = .legacy ∧ e.degree = 0
      · simp [htimeless.mpr hlegacy, hlegacy]
      · simp [if_neg (mt htimeless.mp hlegacy), hlegacy]

theorem answers_run_delayed_returningRun :
    let t := (ofStrategy .int2 Settings.standard).run (returningRun.take 4)
    let u := (ofStrategy .int2 Settings.standard).run
      ((returningRun.map (Step.delayed (-7))).take 4)
    u.active? = t.active? ∧ u.velocity 1 = t.velocity 1 :=
  have hanswers :=
    answers_run_delayed .int2 Settings.standard (-7) (by decide +kernel) 4
  ⟨hanswers.2.1, (hanswers.2.2 1).1⟩

end Tracker

end PointerMotion
