/-
Runs in lockstep: corresponding steps keep trackers matched, whether they are
taken or refused, also on clocks of which one is ahead.
-/
import PointerMotion.Proofs.Correspondence
import PointerMotion.Proofs.Roster

namespace PointerMotion

variable {α : Type} [Scalar α] {C : Correspondence α}

/-- Steps that do the same to the same pointers, at corresponding positions. -/
inductive Step.Matched (C : Correspondence α) : Step α → Step α → Prop where
  | add {m n : Movement α} (h : m.Matched C n) : Matched C (add m) (add n)
  | clear : Matched C clear clear
  | clearPointers (gone : PointerSet) :
    Matched C (clearPointers gone) (clearPointers gone)

namespace Tracker

/-- Trackers that know corresponding things of every pointer. -/
structure Matched (C : Correspondence α) (t u : Tracker α) : Prop where
  settings : u.settings = t.settings
  current : u.current = t.current
  introduced : u.introduced = t.introduced
  lastTime : t.current ≠ ∅ → u.lastTime = t.lastTime + C.delay
  strategy : t.strategy.Matched C u.strategy

namespace Matched

variable {t u : Tracker α}

theorem ofStrategy (C : Correspondence α) (strategy : StrategyId)
    (settings : Settings α) :
    (ofStrategy strategy settings).Matched C
      (ofStrategy strategy settings) where
  settings := rfl
  current := rfl
  introduced := rfl
  lastTime := fun h => absurd rfl h
  strategy := Strategy.matched_ofPlan C strategy.plan

theorem introduced_setCurrent (h : t.Matched C u) (ids : PointerSet) :
    (u.setCurrent ids).introduced = (t.setCurrent ids).introduced := by
  rw [setCurrent, setCurrent, h.introduced, h.current]

theorem clear (h : t.Matched C u) : t.clear.Matched C u.clear where
  settings := h.settings
  current := rfl
  introduced := h.introduced_setCurrent ∅
  lastTime := fun hcurrent => absurd rfl hcurrent
  strategy := h.strategy.clear

theorem clearSet (h : t.Matched C u) (gone : PointerSet) :
    (t.clearSet gone).Matched C (u.clearSet gone) where
  settings := h.settings
  current := congrArg (· \ gone) h.current
  introduced := by
    rw [Tracker.clearSet, h.current]
    exact h.introduced_setCurrent (t.current \ gone)
  lastTime := by
    intro hcurrent
    apply h.lastTime
    intro hempty
    apply hcurrent
    rw [current_clearSet, hempty]
    exact PointerSet.ext_of_mem fun id => by simp
  strategy := h.strategy.clearPointers gone

/-- Both trackers measure the same pause, if there is one to be measured. -/
theorem stoppedBy (h : t.Matched C u) (ids : PointerSet) (time : Int) :
    u.stoppedBy ids (time + C.delay) = t.stoppedBy ids time := by
  rw [Tracker.stoppedBy, Tracker.stoppedBy, h.current, h.settings]
  split
  · rfl
  next hmeets =>
    have hcurrent : t.current ≠ ∅ := by
      intro hempty
      apply hmeets
      rw [hempty, PointerSet.isEmpty_iff]
      exact PointerSet.ext_of_mem fun id => by simp
    have hpause : ∀ pause, u.lastTime + pause ≤ time + C.delay ↔
        t.lastTime + pause ≤ time := by
      intro pause
      rw [h.lastTime hcurrent]
      omega
    simp only [hpause]

/-- Matched movements are taken or refused together, and leave matched
trackers. -/
theorem addMovement (h : t.Matched C u) {m n : Movement α}
    (hmovement : m.Matched C n)
    (htime : t.strategy.plan.HoldsTime n.time ↔
      t.strategy.plan.HoldsTime m.time) :
    Outcome.Alike (Matched C) (t.addMovement m) (u.addMovement n) := by
  have hstopped : u.stoppedBy n.ids n.time = t.stoppedBy m.ids m.time := by
    rw [hmovement.ids, hmovement.time]
    exact h.stoppedBy m.ids m.time
  rw [addMovement_eq, addMovement_eq, hstopped, hmovement.ids]
  apply Outcome.alike_orFail _ h
  intro stopped
  have hfound : Strategy.Matched C
      (if stopped then t.strategy.clear else t.strategy)
      (if stopped then u.strategy.clear else u.strategy) := by
    split
    · exact h.strategy.clear
    · exact h.strategy
  have hword := htime
  rw [← t.strategy.plan_ite_clear (stopped = true)] at hword
  apply (Strategy.alike_addMovement_of_matched hfound hmovement hword).map
  intro left right hstrategy
  exact
    { settings := h.settings
      current := rfl
      introduced := h.introduced_setCurrent m.ids
      lastTime := fun _ => hmovement.time
      strategy := hstrategy }

theorem perform (h : t.Matched C u) {left right : Step α}
    (hstep : left.Matched C right) (htime : ∀ time, left.time? = some time →
      (t.strategy.plan.HoldsTime (time + C.delay) ↔
        t.strategy.plan.HoldsTime time)) :
    Outcome.Alike (Matched C) (t.perform left.call) (u.perform right.call) := by
  cases hstep with
  | @add m n hmovement =>
      rw [perform_add, perform_add]
      apply h.addMovement (hmovement.lowest maxPointers)
      have hword := htime m.time rfl
      rw [← hmovement.time] at hword
      exact hword
  | clear => exact ⟨h.clear, rfl⟩
  | clearPointers gone => exact ⟨h.clearSet gone, rfl⟩

theorem run (h : t.Matched C u) {left right : List (Step α)}
    (hsteps : List.Forall₂ (Step.Matched C) left right)
    (htimes : ∀ time ∈ Step.times left,
      (t.strategy.plan.HoldsTime (time + C.delay) ↔
        t.strategy.plan.HoldsTime time)) :
    (t.run left).Matched C (u.run right) := by
  induction hsteps generalizing t u with
  | nil => exact h
  | @cons step step' rest rest' hstep _ ih =>
      rw [run_cons, run_cons]
      apply ih
      · refine (h.perform hstep ?_).state
        intro time htime
        exact htimes time
          (List.mem_filterMap.mpr ⟨step, List.mem_cons_self, htime⟩)
      · intro time htime
        rw [plan_perform_step]
        exact htimes time
          (List.Sublist.mem htime (Step.times_sublist_cons step rest))

end Matched

end Tracker

end PointerMotion
