/-
Movements from before the horizon.  Two trackers that agree but for early
glimpses go on agreeing, though they need not stop together.
-/
import PointerMotion.Proofs.Presence

namespace PointerMotion

variable {α : Type}

/-- Earlier glimpses can add to a streak at its end alone. -/
theorem exists_streak_append (recent old : List (Glimpse α)) :
    ∃ stale, streak (recent ++ old) = streak recent ++ stale ∧
      ∀ p ∈ stale, ∃ g ∈ old, g.time = p.time := by
  induction recent with
  | nil => exact ⟨streak old, rfl, fun p hp => ⟨_, mem_of_mem_streak hp, rfl⟩⟩
  | cons g rest ih =>
      obtain ⟨stale, hstreak, hold⟩ := ih
      obtain ⟨time, _ | p⟩ := g
      · exact ⟨[], rfl, fun p hp => absurd hp List.not_mem_nil⟩
      · refine ⟨stale, ?_, hold⟩
        rw [List.cons_append, streak_cons_some, streak_cons_some, hstreak,
          List.cons_append]

namespace TrackLimits

variable {limits : TrackLimits} {newest : Int}

theorem cutBehind_append_of_stale {stale : List (TrackPoint α)}
    (h : ∀ p ∈ stale, limits.horizon < newest - p.time) (later : Int)
    (points : List (TrackPoint α)) :
    limits.cutBehind newest later (points ++ stale) =
      limits.cutBehind newest later points := by
  induction points generalizing later with
  | nil =>
      cases stale with
      | nil => rfl
      | cons p rest =>
          have hlate : ¬ newest - p.time ≤ limits.horizon :=
            Int.not_le.mpr (h p List.mem_cons_self)
          simp [cutBehind, hlate]
  | cons p rest ih => rw [List.cons_append, cutBehind, cutBehind, ih]

/-- Glimpses from before the horizon of the newest one do not lengthen the
track. -/
theorem cut_streak_append_of_stale {recent old : List (Glimpse α)}
    (hhorizon : 0 ≤ limits.horizon)
    (hnewest : ∀ g, (recent ++ old).head? = some g → g.time = newest)
    (hold : ∀ g ∈ old, g.time < newest - limits.horizon) :
    limits.cut (streak (recent ++ old)) = limits.cut (streak recent) := by
  cases recent with
  | nil =>
      cases old with
      | nil => rfl
      | cons g rest =>
          -- the newest glimpse cannot be from before its own horizon
          have htime := hnewest g rfl
          have hearly := hold g List.mem_cons_self
          omega
  | cons g rest =>
      obtain ⟨time, _ | p⟩ := g
      · rfl
      · obtain ⟨stale, hstreak, hearly⟩ := exists_streak_append rest old
        have htime : time = newest := hnewest ⟨time, some p⟩ rfl
        have hstale : ∀ q ∈ stale, limits.horizon < time - q.time := by
          intro q hq
          obtain ⟨g, hg, hgtime⟩ := hearly q hq
          have hlate := hold g hg
          omega
        rw [List.cons_append, streak_cons_some, streak_cons_some, hstreak, cut,
          cut, cutBehind_append_of_stale hstale]

end TrackLimits

namespace Strategy

/-- Of glimpses that go further back, a movement leaves others that do so. -/
theorem exists_recordGlimpse_append (plan : TrackPlan) {capacity : Nat}
    (h : 0 < capacity) (g : Glimpse α) (recent old : List (Glimpse α)) :
    ∃ older, recordGlimpse plan capacity g (recent ++ old) =
      recordGlimpse plan capacity g recent ++ older ∧ older ⊆ old := by
  obtain ⟨count, rfl⟩ := Nat.exists_eq_add_one_of_ne_zero (Nat.ne_of_gt h)
  cases recent with
  | nil =>
      have hfirst : recordGlimpse plan (count + 1) g [] = [g] := by
        simp [recordGlimpse]
      rw [hfirst, List.nil_append, recordGlimpse]
      split
      · exact ⟨old.tail, rfl, fun o ho => List.mem_of_mem_tail ho⟩
      · exact ⟨old.take count, rfl, List.take_subset count old⟩
  | cons newest rest =>
      rw [recordGlimpse, recordGlimpse, List.cons_append, List.head?_cons,
        List.head?_cons, List.tail_cons, List.tail_cons]
      split
      · exact ⟨old, rfl, List.Subset.refl old⟩
      · refine ⟨old.take (count + 1 - (g :: newest :: rest).length), ?_,
          List.take_subset _ old⟩
        rw [← List.cons_append, ← List.cons_append, List.take_append]

end Strategy

/-- Whether a sight of a plan is another one that goes further back, to glimpses
from before `bound`. -/
inductive Sight.Recalls (plan : TrackPlan) (bound : Int) :
    Sight α → Sight α → Prop where
  | ofTrack {capacity : Nat} {recent old : List (Glimpse α)}
    (capacity_pos : 0 < capacity)
      (early : ∀ g ∈ old, g.time < bound) :
      Recalls plan bound (ofTrack plan capacity (recent ++ old))
        (ofTrack plan capacity recent)

namespace Sight.Recalls

variable {plan : TrackPlan} {bound : Int} {v w : Sight α}

theorem plan_eq (h : v.Recalls plan bound w) :
    v.plan = .ofTrack plan ∧ w.plan = .ofTrack plan := by
  cases h
  exact ⟨rfl, rfl⟩

/-- A sight of early glimpses recalls them from nothing. -/
theorem ofTrack_nil {capacity : Nat} (hcapacity : 0 < capacity)
    {old : List (Glimpse α)} (hearly : ∀ g ∈ old, g.time < bound) :
    (Sight.ofTrack plan capacity old).Recalls plan bound
      (.ofTrack plan capacity []) :=
  @ofTrack α plan bound capacity [] old hcapacity hearly

theorem cleared (h : v.Recalls plan bound w) :
    v.cleared.Recalls plan bound w.cleared := by
  cases h with
  | @ofTrack capacity recent old hcapacity hearly =>
      exact ofTrack_nil hcapacity (by simp)

theorem forgotten (h : v.Recalls plan bound w) :
    v.forgotten.Recalls plan bound w.forgotten := by
  cases h with
  | @ofTrack capacity recent old hcapacity hearly =>
      rw [Sight.forgotten, Sight.forgotten, List.map_append]
      refine .ofTrack hcapacity ?_
      intro g hg
      obtain ⟨o, ho, rfl⟩ := List.mem_map.mp hg
      exact hearly o ho

variable [Scalar α]

/-- Whatever is seen next, the early glimpses that are left are early. -/
theorem seeing (h : v.Recalls plan bound w) (g : Glimpse α) :
    (v.seeing g).Recalls plan bound (w.seeing g) := by
  cases h with
  | @ofTrack capacity recent old hcapacity hearly =>
      obtain ⟨older, hrecord, hsub⟩ :=
        Strategy.exists_recordGlimpse_append plan hcapacity g recent old
      rw [Sight.seeing, Sight.seeing, hrecord]
      exact .ofTrack hcapacity fun o ho => hearly o (hsub ho)

/-- A glimpse from before the bound is nothing that the other sight would have
to know. -/
theorem seeing_of_lt {capacity : Nat}
    (h : v.Recalls plan bound (.ofTrack plan capacity [])) {g : Glimpse α}
    (hg : g.time < bound) :
    (v.seeing g).Recalls plan bound (.ofTrack plan capacity []) := by
  generalize hempty : Sight.ofTrack plan capacity [] = empty at h
  cases h with
  | @ofTrack capacity' recent old hcapacity hearly =>
      cases hempty
      refine ofTrack_nil hcapacity ?_
      intro o ho
      rcases Strategy.mem_of_mem_recordGlimpse ho with rfl | hmem
      · exact hg
      · exact hearly o hmem

end Sight.Recalls

namespace Tracker

/-- Trackers of which one remembers more, from before `bound`.  They stop
together, unless the other one has seen nothing that a stop could take away. -/
structure Recalls (plan : TrackPlan) (bound : Int)
    (t u : Tracker α) : Prop where
  settings : t.settings = u.settings
  sight : ∀ id, (t.strategy.sight id).Recalls plan bound (u.strategy.sight id)
  pauses : (t.current = u.current ∧ t.lastTime = u.lastTime) ∨
    (u.current = ∅ ∧ ∀ id, u.strategy.sight id = (u.strategy.sight id).cleared)

namespace Recalls

variable {plan : TrackPlan} {bound : Int} {t u : Tracker α}

theorem clear (h : t.Recalls plan bound u) :
    t.clear.Recalls plan bound u.clear where
  settings := h.settings
  sight := by
    intro id
    rw [strategy_clear, strategy_clear, Strategy.sight_clear,
      Strategy.sight_clear]
    exact (h.sight id).cleared
  pauses := by
    rcases h.pauses with ⟨-, htime⟩ | ⟨-, hcleared⟩
    · exact .inl ⟨rfl, htime⟩
    · refine .inr ⟨rfl, ?_⟩
      intro id
      rw [strategy_clear, Strategy.sight_clear, ← hcleared id]
      exact hcleared id

theorem clearSet (h : t.Recalls plan bound u) (gone : PointerSet) :
    (t.clearSet gone).Recalls plan bound (u.clearSet gone) where
  settings := h.settings
  sight := by
    intro id
    rw [strategy_clearSet, strategy_clearSet, Strategy.sight_clearPointers,
      Strategy.sight_clearPointers]
    split
    · exact (h.sight id).forgotten
    · exact h.sight id
  pauses := by
    rcases h.pauses with ⟨hcurrent, htime⟩ | ⟨hcurrent, hcleared⟩
    · exact .inl ⟨congrArg (· \ gone) hcurrent, htime⟩
    · refine .inr ⟨PointerSet.ext_of_mem fun id => by simp [hcurrent], ?_⟩
      intro id
      rw [strategy_clearSet, Strategy.sight_clearPointers, hcleared id]
      cases u.strategy.sight id <;> split <;> rfl

/-- Where a stop clears one tracker alone, the other one had nothing to be
cleared. -/
theorem sight_strategyFor (h : t.Recalls plan bound u) (pause : Int)
    (m : Movement α) (id : PointerId) :
    ((t.strategyFor pause m).sight id).Recalls plan bound
      ((u.strategyFor pause m).sight id) := by
  rcases h.pauses with ⟨hcurrent, htime⟩ | ⟨hcurrent, hcleared⟩
  · have hstops : t.stops pause m = u.stops pause m := by
      rw [stops, stops, hcurrent, htime]
    rw [strategyFor, strategyFor, hstops]
    split
    · rw [Strategy.sight_clear, Strategy.sight_clear]
      exact (h.sight id).cleared
    · exact h.sight id
  · have hnever : ¬ u.stops pause m = true := by
      intro hstops
      obtain ⟨⟨other, hother, -⟩, -⟩ := stops_iff.mp hstops
      rw [hcurrent] at hother
      exact PointerSet.not_mem_empty other hother
    have hkept : u.strategyFor pause m = u.strategy := if_neg hnever
    rw [hkept, strategyFor]
    split
    · rw [Strategy.sight_clear, hcleared id]
      exact (h.sight id).cleared
    · exact h.sight id

variable [Scalar α]

theorem addMovement (h : t.Recalls plan bound u) {pause : Int}
    (hpause : t.settings.stoppedTime = .ok pause) (m : Movement α) :
    (t.addMovement m).state.Recalls plan bound (u.addMovement m).state := by
  have hpause' : u.settings.stoppedTime = .ok pause := h.settings ▸ hpause
  refine ⟨?_, ?_, .inl ⟨?_, ?_⟩⟩
  · rw [settings_addMovement hpause, settings_addMovement hpause', h.settings]
  · intro id
    have hfound := h.sight_strategyFor pause m id
    obtain ⟨hleft, hright⟩ := hfound.plan_eq
    rw [Sight.plan_sight] at hleft hright
    rw [strategy_addMovement hpause, strategy_addMovement hpause',
      Strategy.sight_addMovement
        (Strategy.error_addMovement_of_holdsTime (hleft ▸ trivial)),
        Strategy.sight_addMovement
          (Strategy.error_addMovement_of_holdsTime (hright ▸ trivial))]
    exact hfound.seeing (m.glimpse id)
  · rw [current_addMovement hpause, current_addMovement hpause']
  · rw [lastTime_addMovement hpause, lastTime_addMovement hpause']

theorem perform (h : t.Recalls plan bound u) {pause : Int}
    (hpause : t.settings.stoppedTime = .ok pause) (step : Step α) :
    (t.perform step.call).state.Recalls plan bound
      (u.perform step.call).state := by
  cases step with
  | add m =>
      rw [perform_add, perform_add]
      exact h.addMovement hpause (m.lowest maxPointers)
  | clear => exact h.clear
  | clearPointers gone => exact h.clearSet gone

theorem run (h : t.Recalls plan bound u) {pause : Int}
    (hpause : t.settings.stoppedTime = .ok pause) (steps : List (Step α)) :
    (t.run steps).Recalls plan bound (u.run steps) := by
  induction steps generalizing t u with
  | nil => exact h
  | cons step rest ih =>
      rw [run_cons, run_cons]
      apply ih (h.perform hpause step)
      rw [(t.make_perform_step step).1]
      exact hpause

end Recalls

variable [Scalar α]

theorem sight_ofStrategy {strategy : StrategyId} {plan : TrackPlan}
    (h : strategy.plan = .ofTrack plan) (settings : Settings α)
    (id : PointerId) :
    (ofStrategy strategy settings).strategy.sight id =
      .ofTrack plan TrackPlan.historySize [] := by
  rw [ofStrategy, h, Strategy.sight_ofPlan]
  rfl

/-- After movements from before a bound, a tracker is a new one that recalls
them. -/
theorem recalls_run_ofStrategy {strategy : StrategyId} {settings : Settings α}
    {plan : TrackPlan} (hplan : strategy.plan = .ofTrack plan)
    {pause bound : Int} (hpause : settings.stoppedTime = .ok pause)
    {steps : List (Step α)} (hearly : ∀ time ∈ Step.times steps, time < bound) :
    ((ofStrategy strategy settings).run steps).Recalls plan bound
      (ofStrategy strategy settings) where
  settings := (make_after _ _).1
  sight := by
    intro id
    rw [sight_ofStrategy hplan]
    refine sight_run_induction
      (P := fun v =>
          v.Recalls plan bound (.ofTrack plan TrackPlan.historySize []))
      (fun v hv => hv.cleared) (fun v hv => hv.forgotten) ?_ hpause ?_ ?_
    · intro v m hm hv
      exact hv.seeing_of_lt (hearly m.time (Step.mem_times hm))
    · intro time _
      rw [plan_ofStrategy, hplan]
      trivial
    · rw [sight_ofStrategy hplan]
      exact Sight.Recalls.ofTrack_nil (by decide) (by simp)
  pauses := by
    refine .inr ⟨rfl, ?_⟩
    intro id
    rw [sight_ofStrategy hplan]
    rfl

/-- A run that is not refused ends at the time of its latest movement. -/
theorem lastTime_run {t : Tracker α} {pause : Int}
    (hpause : t.settings.stoppedTime = .ok pause) (steps : List (Step α)) :
    (t.run steps).lastTime = (Step.times steps).getLast?.getD t.lastTime := by
  induction steps generalizing t with
  | nil => rfl
  | cons step rest ih =>
      have hrest := ih ((t.make_perform_step step).1 ▸ hpause)
      rw [run_cons, hrest]
      cases step with
      | add m =>
          have htime : (t.perform (Step.add m).call).state.lastTime =
              m.time := by
            rw [perform_add, lastTime_addMovement hpause]
            rfl
          have hcons : Step.times (.add m :: rest) = m.time ::
              Step.times rest := rfl
          rw [htime, hcons, List.getLast?_cons, Option.getD_some]
      | clear => rfl
      | clearPointers gone => rfl

omit [Scalar α] in
/-- The newest glimpse of any pointer is from the latest time. -/
theorem InStep.time_head?_glimpses {t : Tracker α} (h : t.InStep)
    {id : PointerId} {plan : TrackPlan} {capacity : Nat}
    {glimpses : List (Glimpse α)}
    (hsight : t.strategy.sight id = .ofTrack plan capacity glimpses)
    {g : Glimpse α} (hg : glimpses.head? = some g) : g.time = t.lastTime := by
  have hshows := h.shows
  cases hstrategy : t.strategy with
  | filter order table =>
      rw [hstrategy] at hsight
      cases hsight
  | ofTrack plan' history =>
      rw [hstrategy] at hsight hshows
      cases hsight
      rw [History.head?_glimpses] at hg
      obtain ⟨m, hm, rfl⟩ := Option.map_eq_some_iff.mp hg
      rcases hshows with ⟨hnil, -⟩ | ⟨n, hn, -, htime⟩
      · rw [History.newest?_eq_head?, hnil] at hm
        cases hm
      · rw [hn] at hm
        exact Option.some.inj hm ▸ htime

/-- A run whose movements are all from before the horizon of a later run does
not show in the estimates after that one. -/
theorem estimate_run_append_of_stale (strategy : StrategyId)
    {settings : Settings α} {plan : TrackPlan}
    (hplan : strategy.plan = .ofTrack plan) {pause : Int}
    (hpause : settings.stoppedTime = .ok pause) {before later : List (Step α)}
    {last : Int} (hlast : (Step.times later).getLast? = some last)
    (hstale : ∀ time ∈ Step.times before, time < last - plan.limits.horizon)
    (id : PointerId) :
    ((ofStrategy strategy settings).run (before ++ later)).estimate id =
      ((ofStrategy strategy settings).run later).estimate id := by
  have hbefore := recalls_run_ofStrategy hplan hpause hstale
  have hsettings :
      ((ofStrategy strategy settings).run before).settings = settings :=
    (make_after _ _).1
  have hend := hbefore.run (hsettings.symm ▸ hpause) later
  have hinStep :
      (((ofStrategy strategy settings).run before).run later).InStep := by
    rw [← run_append]
    apply (inStep_ofStrategy strategy settings).after
    intro time _
    rw [plan_ofStrategy, hplan]
    trivial
  have htime : (((ofStrategy strategy settings).run before).run
        later).lastTime = last := by
    rw [lastTime_run (hsettings.symm ▸ hpause), hlast]
    rfl
  rw [run_append, estimate, estimate, Strategy.estimate_eq,
    Strategy.estimate_eq]
  generalize hleft :
    (((ofStrategy strategy settings).run before).run later).strategy.sight id =
      v
  generalize hright :
    ((ofStrategy strategy settings).run later).strategy.sight id = w
  have hsight : v.Recalls plan (last - plan.limits.horizon) w :=
    hleft ▸ hright ▸ hend.sight id
  cases hsight with
  | @ofTrack capacity recent old hcapacity hearly =>
      have hnewest : ∀ g, (recent ++ old).head? = some g → g.time = last := by
        intro g hg
        rw [hinStep.time_head?_glimpses hleft hg, htime]
      rw [Sight.estimate, Sight.estimate,
        TrackLimits.cut_streak_append_of_stale plan.horizon_nonneg
          hnewest hearly]

theorem estimate_run_resumedRun :
    ((ofStrategy .lsq2 Settings.standard).run
        (leavingRun ++ resumedRun)).estimate 1 =
      ((ofStrategy .lsq2 Settings.standard).run resumedRun).estimate 1 :=
  estimate_run_append_of_stale .lsq2 rfl
    (by rfl : Settings.standard.stoppedTime = .ok 40000000) rfl
      (by decide +kernel) 1

end Tracker

end PointerMotion
