/-
Runs reduced to one pointer, by taking every other pointer out of movements
that keep their times.
-/
import Mathlib.Data.List.Chain
import PointerMotion.Proofs.Presence

namespace PointerMotion

variable {α : Type}

namespace Movement

/-- The movement of one pointer among those of a movement, if it is among
them. -/
def only (m : Movement α) (id : PointerId) : Movement α :=
  { time := m.time
    ids := m.ids ∩ {id}
    positions := (m.position? id).toList
    sized := by
      by_cases h : id ∈ m.ids
      · rw [PointerSet.inter_singleton_of_mem h, PointerSet.card_singleton,
      position?, dif_pos h]
        rfl
      · rw [PointerSet.inter_singleton_of_not_mem h, PointerSet.card_empty,
          position?_eq_none_iff.mpr h]
        rfl }

theorem card_ids_only (m : Movement α) (id : PointerId) :
    (m.only id).ids.card ≤ 1 := by
  rw [← (m.only id).sized]
  exact Option.length_toList_le

theorem glimpse_only (m : Movement α) (id : PointerId) :
    (m.only id).glimpse id = m.glimpse id := by
  have hids : (m.only id).ids = m.ids ∩ {id} := rfl
  have hpositions : (m.only id).positions = (m.position? id).toList := rfl
  have hposition : (m.only id).position? id = m.position? id := by
    by_cases h : id ∈ m.ids
    · obtain ⟨p, hp⟩ := Option.isSome_iff_exists.mp (isSome_position?.mpr h)
      rw [hp, ← mem_samples, samples, hids, PointerSet.inter_singleton_of_mem h,
        hpositions, hp, PointerSet.toList_singleton]
      exact List.mem_singleton_self _
    · rw [position?_eq_none_iff.mpr h, position?_eq_none_iff, hids,
        PointerSet.inter_singleton_of_not_mem h]
      exact PointerSet.not_mem_empty id
  rw [glimpse, glimpse, hposition]
  rfl

end Movement

/-- A step with every pointer but one taken out of it. -/
def Step.only (id : PointerId) : Step α → Step α
  | add m => add (m.only id)
  | clear => clear
  | clearPointers gone => clearPointers (gone ∩ {id})

namespace Tracker

/-- Whether movements of the given times, one after another, can all be kept and
none of them takes the place of the newest one. -/
structure Ready (t : Tracker α) (id : PointerId) (times : List Int) : Prop where
  consistent : t.Consistent
  holds : ∀ time ∈ times, t.strategy.plan.HoldsTime time
  separate : t.strategy.plan.mergesEqualTimes = true → times.IsChain (· ≠ ·)
  newest : ∀ time, (t.strategy.sight id).mergedTime? = some time →
    times.head? ≠ some time

namespace Ready

variable {t : Tracker α} {id : PointerId} {times : List Int}

theorem clear (h : t.Ready id times) : t.clear.Ready id times where
  consistent := t.consistent_clear
  holds := by
    rw [strategy_clear, Strategy.plan_clear]
    exact h.holds
  separate := by
    rw [strategy_clear, Strategy.plan_clear]
    exact h.separate
  newest := by
    rw [strategy_clear, Strategy.sight_clear, Sight.mergedTime?_cleared]
    exact fun _ hmerged => absurd hmerged (Option.some_ne_none _).symm

theorem clearSet (h : t.Ready id times) (gone : PointerSet) :
    (t.clearSet gone).Ready id times where
  consistent := h.consistent.clearSet gone
  holds := by
    rw [strategy_clearSet, Strategy.plan_clearPointers]
    exact h.holds
  separate := by
    rw [strategy_clearSet, Strategy.plan_clearPointers]
    exact h.separate
  newest := by
    rw [strategy_clearSet, Strategy.mergedTime?_clearPointers]
    exact h.newest

variable {m : Movement α} {pause : Int}

theorem not_merges (h : t.Ready id (m.time :: times)) :
    ((t.strategyFor pause m).sight id).merges m.time = false := by
  have hmerges : (t.strategy.sight id).merges m.time = false := by
    rw [Sight.merges, beq_eq_false_iff_ne]
    exact fun hmerged => h.newest m.time hmerged rfl
  rw [merges_strategyFor, hmerges, Bool.and_false]

variable [Scalar α]

theorem error_addMovement (h : t.Ready id (m.time :: times))
    (hpause : t.settings.stoppedTime = .ok pause) :
    (t.addMovement m).error = none :=
  error_addMovement_of_holdsTime hpause (h.holds m.time List.mem_cons_self)

theorem addMovement (h : t.Ready id (m.time :: times))
    (hpause : t.settings.stoppedTime = .ok pause) :
    (t.addMovement m).state.Ready id times where
  consistent := consistent_addMovement hpause (h.error_addMovement hpause)
  holds := by
    rw [plan_addMovement hpause]
    exact fun time htime => h.holds time (List.mem_cons_of_mem _ htime)
  separate := by
    rw [plan_addMovement hpause]
    exact fun hplan => (h.separate hplan).tail
  newest := by
    rw [mergedTime?_addMovement hpause (h.error_addMovement hpause)]
    intro time hmerged hhead
    split at hmerged
    next hplan =>
      exact (h.separate hplan).rel_head? hhead (Option.some.inj hmerged)
    next => contradiction

end Ready

variable [Scalar α]

/-- Taking the other pointers out of a run keeps the agreement on the one that
is left. -/
theorem agreeOn_run_only {left right : Tracker α} {id : PointerId}
    {steps : List (Step α)} {pause : Int} (h : AgreeOn id left right)
    (hpause : left.settings.stoppedTime = .ok pause)
    (hleft : left.Ready id (Step.times steps))
    (hright : right.Ready id (Step.times steps))
    (hcard : ∀ m, .add m ∈ steps → m.ids.card ≤ maxPointers) :
    AgreeOn id (left.run steps) (right.run (steps.map (Step.only id))) := by
  -- both trackers move, and `Ready` loses the first of its times with every
  -- movement
  induction steps generalizing left right with
  | nil => exact h
  | cons step rest ih =>
      have hrest : ∀ m, .add m ∈ rest → m.ids.card ≤ maxPointers :=
        fun m hm => hcard m (List.mem_cons_of_mem _ hm)
      rw [List.map_cons, run_cons, run_cons]
      cases step with
      | add m =>
          have hm : m.lowest maxPointers = m :=
            Movement.lowest_of_card_le (hcard m List.mem_cons_self)
          have hn : (m.only id).lowest maxPointers = m.only id :=
            Movement.lowest_of_card_le
              (Nat.le_trans (m.card_ids_only id) (by decide))
          have hpause' : right.settings.stoppedTime = .ok pause :=
            h.settings ▸ hpause
          have hright' : right.Ready id ((m.only id).time :: Step.times rest) :=
            hright
          rw [Step.only, perform_add, perform_add, hm, hn]
          apply ih _ _ (hleft.addMovement hpause)
            (hright'.addMovement hpause') hrest
          · apply h.addMovement hleft.consistent hright.consistent hpause
              (m.glimpse_only id).symm (hleft.error_addMovement hpause)
              (hright'.error_addMovement hpause')
            · intro _
              rw [hleft.not_merges, hright'.not_merges]
            · rw [hleft.not_merges]
              simp
          · rw [settings_addMovement hpause]
            exact hpause
      | clear => exact ih h.clear hpause hleft.clear hright.clear hrest
      | clearPointers gone =>
          have hgone : id ∈ gone ↔ id ∈ gone ∩ {id} := by simp
          exact ih (h.clearSet hgone) hpause (hleft.clearSet gone)
            (hright.clearSet _) hrest

theorem ready_ofStrategy {strategy : StrategyId} {settings : Settings α}
    {id : PointerId} {times : List Int}
    (hholds : ∀ time ∈ times, strategy.plan.HoldsTime time)
    (hseparate : strategy.plan.mergesEqualTimes = true →
      times.IsChain (· ≠ ·)) :
    (ofStrategy strategy settings).Ready id times where
  consistent := consistent_ofStrategy strategy settings
  holds := by
    rw [plan_ofStrategy]
    exact hholds
  separate := by
    rw [plan_ofStrategy]
    exact hseparate
  newest := by
    intro time hmerged
    rw [ofStrategy, Strategy.mergedTime?_sight_ofPlan] at hmerged
    contradiction

/-- At every point of a run the estimate of a pointer is the one of the run with
every other pointer taken out of it. -/
theorem estimate_run_only (strategy : StrategyId) {settings : Settings α}
    {pause : Int} (hpause : settings.stoppedTime = .ok pause) (id : PointerId)
    {steps : List (Step α)}
    (hcard : ∀ m, .add m ∈ steps → m.ids.card ≤ maxPointers)
    (htimes : ∀ time ∈ Step.times steps, strategy.plan.HoldsTime time)
    (hseparate : strategy.plan.mergesEqualTimes = true →
      (Step.times steps).IsChain (· ≠ ·)) (count : Nat) :
    ((ofStrategy strategy settings).run (steps.take count)).estimate id =
      ((ofStrategy strategy settings).run
          ((steps.map (Step.only id)).take count)).estimate id := by
  have hsplit : Step.times (steps.take count) ++ Step.times (steps.drop count) =
      Step.times steps := by
    rw [Step.times, Step.times, ← List.filterMap_append, List.take_append_drop]
    rfl
  have hready : (ofStrategy strategy settings).Ready id
      (Step.times (steps.take count)) :=
    ready_ofStrategy
      (fun time htime => htimes time (hsplit ▸ List.mem_append_left _ htime))
      (fun hplan => (hsplit ▸ hseparate hplan).left_of_append)
  have hagree := agreeOn_run_only (AgreeOn.refl id _) hpause hready hready
    fun m hm => hcard m (List.mem_of_mem_take hm)
  rw [← List.map_take]
  exact hagree.estimate

theorem estimate_run_interruptedRun :
    ((ofStrategy .lsq2 Settings.standard).run
        (interruptedRun.take 5)).estimate 1 =
      ((ofStrategy .lsq2 Settings.standard).run
        ((interruptedRun.map (Step.only 1)).take 5)).estimate 1 :=
  estimate_run_only .lsq2
    (by rfl : Settings.standard.stoppedTime = .ok 40000000) 1
    (by simp [interruptedRun]; decide) (by decide +kernel) (by decide +kernel) 5

end Tracker

end PointerMotion
