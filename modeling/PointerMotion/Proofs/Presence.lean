/-
What a tracker knows of one pointer.  It has a trail exactly when it is current,
so a stop that others set off finds no trail to take away.
-/
import PointerMotion.Proofs.Roster

namespace PointerMotion

namespace Tracker

variable {α : Type}

/-- The pointers with a trail are the current ones. -/
def Consistent (t : Tracker α) : Prop :=
  ∀ id, (t.strategy.trail id).found = true ↔ id ∈ t.current

/-- Whether a movement shows a current pointer after a pause. -/
def stops (t : Tracker α) (pause : Int) (m : Movement α) : Bool :=
  !(t.current ∩ m.ids).isEmpty && t.lastTime + pause ≤ m.time

theorem stops_iff {t : Tracker α} {pause : Int} {m : Movement α} :
    t.stops pause m = true ↔
      (∃ id, id ∈ t.current ∧ id ∈ m.ids) ∧ t.lastTime + pause ≤ m.time := by
  simp [stops, PointerSet.isEmpty_eq_false_iff]

/-- The strategy that a movement finds: after a stop it starts from nothing. -/
def strategyFor (t : Tracker α) (pause : Int) (m : Movement α) : Strategy α :=
  if t.stops pause m then t.strategy.clear else t.strategy

theorem consistent_clear (t : Tracker α) : t.clear.Consistent := by
  intro id
  simp

theorem Consistent.clearSet {t : Tracker α} (h : t.Consistent)
    (gone : PointerSet) :
    (t.clearSet gone).Consistent := by
  intro id
  rw [current_clearSet, strategy_clearSet, Strategy.trail_clearPointers,
    PointerSet.mem_sdiff, ← h id]
  split
  next hgone => simp [hgone]
  next hkept => simp [hkept]

/-- For a pointer that a movement shows, a pause counts if it is current
itself. -/
theorem trail_strategyFor {t : Tracker α} (h : t.Consistent) (pause : Int)
    {m : Movement α} {id : PointerId} (hmember : id ∈ m.ids) :
    (t.strategyFor pause m).trail id =
      if id ∈ t.current ∧ t.lastTime + pause ≤ m.time then
        (t.strategy.trail id).lost
      else t.strategy.trail id := by
  by_cases hcurrent : id ∈ t.current
  · have hstops : t.stops pause m = true ↔ id ∈ t.current ∧
        t.lastTime + pause ≤ m.time := by
      rw [stops_iff]
      exact and_congr_left fun _ =>
        ⟨fun _ => hcurrent, fun _ => ⟨id, hcurrent, hmember⟩⟩
    rw [strategyFor]
    simp only [hstops]
    split
    · exact t.strategy.trail_clear id
    · rfl
  -- others may set off the rule, but there is no trail that a stop could take
  -- away
  · have hlost : (t.strategy.trail id).lost = t.strategy.trail id :=
      Trail.lost_of_not_found fun hfound => hcurrent ((h id).mp hfound)
    rw [if_neg fun hpause => hcurrent hpause.1, strategyFor]
    split
    · rw [Strategy.trail_clear, hlost]
    · rfl

theorem lost_trail_strategyFor (t : Tracker α) (pause : Int) (m : Movement α)
    (id : PointerId) :
    ((t.strategyFor pause m).trail id).lost = (t.strategy.trail id).lost := by
  rw [strategyFor]
  split
  · rw [Strategy.trail_clear, Trail.lost_lost]
  · rfl

/-- A stop leaves nothing to merge with. -/
theorem merges_strategyFor (t : Tracker α) (pause : Int) (m : Movement α)
    (id : PointerId) :
    ((t.strategyFor pause m).sight id).merges m.time =
      (!t.stops pause m && (t.strategy.sight id).merges m.time) := by
  rw [strategyFor]
  cases t.stops pause m with
  | true => simp [Sight.merges]
  | false => rfl

variable [Scalar α]

theorem consistent_ofStrategy (strategy : StrategyId) (settings : Settings α) :
    (ofStrategy strategy settings).Consistent := by
  intro id
  have hcurrent : (ofStrategy strategy settings).current = ∅ := rfl
  rw [hcurrent, ofStrategy, Strategy.found_trail_ofPlan]
  simp

theorem stoppedBy_eq {t : Tracker α} {pause : Int}
    (h : t.settings.stoppedTime = .ok pause) (m : Movement α) :
    t.stoppedBy m.ids m.time = .ok (t.stops pause m) := by
  rw [stoppedBy, stops, h]
  cases (t.current ∩ m.ids).isEmpty <;> rfl

/-- A movement is added to the strategy that it finds. -/
theorem addMovement_of_stoppedTime {t : Tracker α} {pause : Int}
    (h : t.settings.stoppedTime = .ok pause) (m : Movement α) :
    t.addMovement m =
      ((t.strategyFor pause m).addMovement m).map fun strategy =>
        { t.setCurrent m.ids with
          lastTime := m.time, strategy := strategy } := by
  rw [addMovement_eq, stoppedBy_eq h]
  rfl

omit [Scalar α] in
theorem plan_strategyFor (t : Tracker α) (pause : Int) (m : Movement α) :
    (t.strategyFor pause m).plan = t.strategy.plan :=
  t.strategy.plan_ite_clear _

section AddMovement

variable {t : Tracker α} {pause : Int} {m : Movement α}

theorem error_strategyFor (hpause : t.settings.stoppedTime = .ok pause) :
    ((t.strategyFor pause m).addMovement m).error =
      (t.addMovement m).error := by
  rw [addMovement_of_stoppedTime hpause]
  rfl

theorem strategy_addMovement (hpause : t.settings.stoppedTime = .ok pause) :
    (t.addMovement m).state.strategy =
      ((t.strategyFor pause m).addMovement m).state := by
  rw [addMovement_of_stoppedTime hpause]
  rfl

theorem current_addMovement (hpause : t.settings.stoppedTime = .ok pause) :
    (t.addMovement m).state.current = m.ids := by
  rw [addMovement_of_stoppedTime hpause]
  rfl

theorem lastTime_addMovement (hpause : t.settings.stoppedTime = .ok pause) :
    (t.addMovement m).state.lastTime = m.time := by
  rw [addMovement_of_stoppedTime hpause]
  rfl

theorem settings_addMovement (hpause : t.settings.stoppedTime = .ok pause) :
    (t.addMovement m).state.settings = t.settings := by
  rw [addMovement_of_stoppedTime hpause]
  rfl

theorem plan_addMovement (hpause : t.settings.stoppedTime = .ok pause) :
    (t.addMovement m).state.strategy.plan = t.strategy.plan := by
  rw [strategy_addMovement hpause, ← plan_strategyFor t pause m]
  exact Strategy.plan_perform _ (.add m)

theorem error_addMovement_of_holdsTime
    (hpause : t.settings.stoppedTime = .ok pause)
    (htime : t.strategy.plan.HoldsTime m.time) :
    (t.addMovement m).error = none := by
  rw [← error_strategyFor hpause]
  apply Strategy.error_addMovement_of_holdsTime
  rwa [plan_strategyFor]

theorem consistent_addMovement (hpause : t.settings.stoppedTime = .ok pause)
    (hok : (t.addMovement m).error = none) :
    (t.addMovement m).state.Consistent := by
  intro id
  rw [strategy_addMovement hpause, current_addMovement hpause]
  exact Strategy.found_trail_addMovement
    ((error_strategyFor hpause).trans hok) id

theorem mergedTime?_addMovement (hpause : t.settings.stoppedTime = .ok pause)
    (hok : (t.addMovement m).error = none) (id : PointerId) :
    ((t.addMovement m).state.strategy.sight id).mergedTime? =
      if t.strategy.plan.mergesEqualTimes then some m.time else none := by
  rw [strategy_addMovement hpause,
    Strategy.mergedTime?_addMovement ((error_strategyFor hpause).trans hok),
    plan_strategyFor]

/-- A movement without the pointer loses its trail. -/
theorem trail_addMovement_of_not_mem
    (hpause : t.settings.stoppedTime = .ok pause)
    (hok : (t.addMovement m).error = none) {id : PointerId}
    (hmember : id ∉ m.ids) :
    (t.addMovement m).state.strategy.trail id = (t.strategy.trail id).lost := by
  rw [strategy_addMovement hpause, Strategy.trail,
    Strategy.sight_addMovement ((error_strategyFor hpause).trans hok),
    Sight.trail_seeing_of_none (Movement.position?_eq_none_iff.mpr hmember)]
  exact lost_trail_strategyFor t pause m id

/-- The next trail of a pointer, unless it joins where a movement replaces the
newest one. -/
theorem trail_addMovement (hpause : t.settings.stoppedTime = .ok pause)
    (h : t.Consistent) (hok : (t.addMovement m).error = none) {id : PointerId}
    (hmerges : ((t.strategyFor pause m).sight id).merges m.time = true →
      id ∈ t.current) :
    (t.addMovement m).state.strategy.trail id =
      ((t.strategyFor pause m).trail id).moved
        (((t.strategyFor pause m).sight id).merges m.time) (m.glimpse id) := by
  rw [strategy_addMovement hpause, Strategy.trail,
    Strategy.sight_addMovement ((error_strategyFor hpause).trans hok)]
  apply Sight.trail_seeing
  intro hmerge
  have hstops : t.stops pause m = false := by
    have hboth := merges_strategyFor t pause m id
    rw [Movement.glimpse_time] at hmerge
    rw [hmerge] at hboth
    simpa using (Bool.and_eq_true_iff.mp hboth.symm).1
  have hkept : t.strategyFor pause m = t.strategy := by
    rw [strategyFor, hstops]
    rfl
  rw [hkept]
  exact (h id).mpr (hmerges hmerge)

end AddMovement

section Induction

variable {P : Sight α → Prop} {id : PointerId} {t : Tracker α} {pause : Int}

omit [Scalar α] in
/-- What a sight keeps when it is cleared is kept by the strategy that a
movement finds. -/
theorem sight_strategyFor_induction (hclear : ∀ v, P v → P v.cleared)
    (h : P (t.strategy.sight id)) (pause : Int) (m : Movement α) :
    P ((t.strategyFor pause m).sight id) := by
  rw [strategyFor]
  split
  · rw [Strategy.sight_clear]
    exact hclear _ h
  · exact h

/-- What a sight keeps by each of its rules is kept by a step. -/
theorem sight_perform_induction {step : Step α}
    (hclear : ∀ v, P v → P v.cleared) (hforget : ∀ v, P v → P v.forgotten)
    (hsee : ∀ v m, step = .add m → P v →
      P (v.seeing ((m.lowest maxPointers).glimpse id)))
    (hpause : t.settings.stoppedTime = .ok pause)
    (htime : ∀ time, step.time? = some time → t.strategy.plan.HoldsTime time)
    (h : P (t.strategy.sight id)) :
      P ((t.perform step.call).state.strategy.sight id) := by
  cases step with
  | add m =>
      have hok : (t.addMovement (m.lowest maxPointers)).error = none :=
        error_addMovement_of_holdsTime hpause (htime m.time rfl)
      rw [perform_add, strategy_addMovement hpause,
        Strategy.sight_addMovement ((error_strategyFor hpause).trans hok)]
      exact hsee _ m rfl (sight_strategyFor_induction hclear h pause _)
  | clear =>
      rw [perform_clear]
      exact (t.strategy.sight_clear id).symm ▸ hclear _ h
  | clearPointers gone =>
      rw [perform_clearPointers]
      refine (t.strategy.sight_clearPointers gone id).symm ▸ ?_
      split
      · exact hforget _ h
      · exact h

/-- What a sight keeps by each of its rules is kept by a run. -/
theorem sight_run_induction {steps : List (Step α)}
    (hclear : ∀ v, P v → P v.cleared) (hforget : ∀ v, P v → P v.forgotten)
    (hsee : ∀ v m, .add m ∈ steps → P v →
      P (v.seeing ((m.lowest maxPointers).glimpse id)))
    (hpause : t.settings.stoppedTime = .ok pause)
    (htimes : ∀ time ∈ Step.times steps, t.strategy.plan.HoldsTime time)
    (h : P (t.strategy.sight id)) : P ((t.run steps).strategy.sight id) := by
  induction steps generalizing t with
  | nil => exact h
  | cons step rest ih =>
      rw [run_cons]
      apply ih
      · exact fun v m hm => hsee v m (List.mem_cons_of_mem step hm)
      · rw [(t.make_perform_step step).1]
        exact hpause
      · intro time htime
        rw [plan_perform_step]
        exact htimes time
          (List.Sublist.mem htime (Step.times_sublist_cons step rest))
      · refine sight_perform_induction hclear hforget ?_ hpause ?_ h
        · rintro v m rfl
          exact hsee v m List.mem_cons_self
        · intro time htime
          exact htimes time
            (List.mem_filterMap.mpr ⟨step, List.mem_cons_self, htime⟩)

end Induction

/-- Trackers that know the same of a pointer. -/
structure AgreeOn (id : PointerId) (left right : Tracker α) : Prop where
  settings : left.settings = right.settings
  lastTime : left.lastTime = right.lastTime
  current : id ∈ left.current ↔ id ∈ right.current
  trail : left.strategy.trail id = right.strategy.trail id

namespace AgreeOn

variable {id : PointerId} {left right : Tracker α}

omit [Scalar α] in
theorem refl (id : PointerId) (t : Tracker α) : AgreeOn id t t :=
  ⟨rfl, rfl, Iff.rfl, rfl⟩

theorem estimate (h : AgreeOn id left right) :
    left.estimate id = right.estimate id := by
  rw [Tracker.estimate, Tracker.estimate, Strategy.estimate_eq_trail,
    Strategy.estimate_eq_trail, h.trail]

omit [Scalar α] in
theorem clear (h : AgreeOn id left right) :
    AgreeOn id left.clear right.clear where
  settings := h.settings
  lastTime := h.lastTime
  current := Iff.rfl
  trail := (left.strategy.trail_clear id).trans
    ((congrArg Trail.lost h.trail).trans (right.strategy.trail_clear id).symm)

omit [Scalar α] in
theorem clearSet (h : AgreeOn id left right) {gone gone' : PointerSet}
    (hgone : id ∈ gone ↔ id ∈ gone') :
    AgreeOn id (left.clearSet gone) (right.clearSet gone') where
  settings := h.settings
  lastTime := h.lastTime
  current := by
    rw [current_clearSet, current_clearSet, PointerSet.mem_sdiff,
      PointerSet.mem_sdiff, h.current, hgone]
  trail := by
    rw [strategy_clearSet, strategy_clearSet, Strategy.trail_clearPointers,
      Strategy.trail_clearPointers, h.trail]
    simp only [hgone]

/-- Movements that show the same of a pointer keep the agreement on it, if both
or neither take the place of the newest one, and if so for a current pointer. -/
theorem addMovement (h : AgreeOn id left right) (hleft : left.Consistent)
    (hright : right.Consistent) {pause : Int}
    (hpause : left.settings.stoppedTime = .ok pause) {m n : Movement α}
    (hglimpse : m.glimpse id = n.glimpse id)
    (hokLeft : (left.addMovement m).error = none)
    (hokRight : (right.addMovement n).error = none)
    (hmerges : id ∈ m.ids →
      ((left.strategyFor pause m).sight id).merges m.time =
        ((right.strategyFor pause n).sight id).merges n.time)
    (hcurrent : ((left.strategyFor pause m).sight id).merges m.time = true →
        id ∈ left.current) :
    AgreeOn id (left.addMovement m).state (right.addMovement n).state := by
  have hpause' : right.settings.stoppedTime = .ok pause := h.settings ▸ hpause
  have htime : m.time = n.time := congrArg Glimpse.time hglimpse
  have hmember : id ∈ m.ids ↔ id ∈ n.ids := by
    rw [← Movement.isSome_position?, ← Movement.isSome_position?]
    exact iff_of_eq
      (congrArg (fun g : Glimpse α => g.position?.isSome = true) hglimpse)
  refine ⟨?_, ?_, ?_, ?_⟩
  · rw [settings_addMovement hpause, settings_addMovement hpause', h.settings]
  · rw [lastTime_addMovement hpause, lastTime_addMovement hpause', htime]
  · rw [current_addMovement hpause, current_addMovement hpause', hmember]
  · by_cases hid : id ∈ m.ids
    · have hsame := hmerges hid
      have hcurrent' :
          ((right.strategyFor pause n).sight id).merges n.time = true →
          id ∈ right.current :=
            fun hmerge => h.current.mp (hcurrent (hsame.trans hmerge))
      rw [trail_addMovement hpause hleft hokLeft hcurrent,
        trail_addMovement hpause' hright hokRight hcurrent',
        trail_strategyFor hleft pause hid,
        trail_strategyFor hright pause (hmember.mp hid), hsame, hglimpse,
        h.trail, h.lastTime, htime]
      simp only [h.current]
    · rw [trail_addMovement_of_not_mem hpause hokLeft hid,
        trail_addMovement_of_not_mem hpause' hokRight
          (fun hid' => hid (hmember.mpr hid')), h.trail]

end AgreeOn

end Tracker

end PointerMotion
