/-
What a pointer that left and came back still carries: nothing, unless the only
movement that told of the absence is replaced by the one that joins.
-/
import Mathlib.Data.List.Induction
import PointerMotion.Proofs.Presence

namespace PointerMotion

variable {α : Type}

namespace Sight

/-- Whether a movement of some time joins a pointer to what was seen of it
before its absence: the newest glimpse, which is replaced, comes after one with
the pointer that is still in reach. -/
def Bridges (v : Sight α) (time : Int) : Prop :=
  match v with
  | ofTrack plan _ glimpses =>
      plan.mergesEqualTimes = true ∧
        ∃ newest earlier rest, glimpses = newest :: earlier :: rest ∧
          newest.time = time ∧
          earlier.position? ≠ none ∧ earlier.time < time ∧
          time - earlier.time ≤ plan.limits.horizon
  | filter _ _ => False

theorem merges_of_bridges {v : Sight α} {time : Int} (h : v.Bridges time) :
    v.merges time = true := by
  cases v with
  | ofTrack plan capacity glimpses =>
      rcases h with ⟨hplan, newest, earlier, rest, rfl, rfl, _⟩
      exact merges_ofTrack_iff.mpr ⟨hplan, rfl⟩
  | filter order motion? => exact h.elim

end Sight

theorem TrackPlan.follows_iff_of_mergesEqualTimes {plan : TrackPlan}
    (h : plan.mergesEqualTimes = true) {later time : Int} :
    plan.limits.follows later time = true ↔ time < later := by
  cases plan with
  | regression plan => simp [limits, Regression.limits, TrackLimits.follows]
  | impulse => simp [limits, Impulse.limits, TrackLimits.follows]
  | average => simp [mergesEqualTimes] at h

/-- A track behind a sample is empty when the neighbour is out of reach. -/
theorem cut_streak_eq_singleton_iff {limits : TrackLimits}
    (h : 0 ≤ limits.horizon) (p : TrackPoint α) (glimpses : List (Glimpse α)) :
    limits.cut (p :: streak glimpses) = [p] ↔
      ¬ ∃ earlier rest, glimpses = earlier :: rest ∧ earlier.position? ≠ none ∧
        limits.follows p.time earlier.time = true ∧
        p.time - earlier.time ≤ limits.horizon := by
  cases glimpses with
  | nil => simp [streak, TrackLimits.cut, TrackLimits.cutBehind, h]
  | cons g rest =>
      rcases g with ⟨time, _ | q⟩
      · simp [TrackLimits.cut, TrackLimits.cutBehind, h]
      · simp [TrackLimits.cut, TrackLimits.cutBehind, h, and_comm]

namespace Sight

variable [Scalar α]

/-- A pointer that joins starts a trail, unless there is a bridge. -/
theorem trail_seeing_of_lost {v : Sight α} (hlost : ¬ v.trail.found = true)
    {g : Glimpse α} (hposition : g.position? ≠ none) :
    (v.seeing g).trail = v.trail.moved (v.merges g.time) g ↔
      ¬ v.Bridges g.time := by
  by_cases hmerges : v.merges g.time = true
  · rcases g with ⟨time, _ | p⟩
    · contradiction
    cases v with
    | filter order motion? => simp [merges, mergedTime?] at hmerges
    | ofTrack plan capacity glimpses =>
        obtain ⟨hplan, htime⟩ := merges_ofTrack_iff.mp hmerges
        have hnil : plan.limits.cut (streak glimpses) = [] := by
          simpa [trail, Trail.found] using hlost
        cases glimpses with
        | nil => simp at htime
        | cons newest rest =>
            have hnewest : newest.time = time := by simpa using htime
            have hcut := cut_streak_eq_singleton_iff plan.horizon_nonneg
              ⟨time, p⟩ rest
            have halone : plan.limits.cut [⟨time, p⟩] =
                [(⟨time, p⟩ : TrackPoint α)] := by
              simp [TrackLimits.cut, TrackLimits.cutBehind, plan.horizon_nonneg]
            simp only [TrackPlan.follows_iff_of_mergesEqualTimes hplan] at hcut
            simp only [seeing, trail, Strategy.recordGlimpse, hplan, htime,
              and_self, if_true, List.tail_cons, streak_cons_some, Trail.moved,
              hmerges, hnil, List.tail_nil, halone, Trail.ofTrack.injEq,
              true_and, hcut, Bridges, List.cons.injEq]
            apply not_congr
            constructor
            · rintro ⟨earlier, rest', rfl, hreach⟩
              exact ⟨newest, earlier, rest', ⟨rfl, rfl⟩, hnewest, hreach⟩
            · rintro ⟨_, earlier, rest', ⟨_, rfl⟩, _, hreach⟩
              exact ⟨earlier, rest', rfl, hreach⟩
  · exact iff_of_true (trail_seeing fun h => absurd h hmerges)
      fun hbridges => hmerges (merges_of_bridges hbridges)

end Sight

namespace Strategy

/-- Whether the motions that a fresh strategy does not share with an older one
all date from the time of one pointer's motion. -/
def Dated (id : PointerId) (old fresh : Strategy α) : Prop :=
  ∀ other, (fresh.sight other).motion? = (old.sight other).motion? ∨
    (fresh.sight other).motion?.map Filter.Motion.time =
      (fresh.sight id).motion?.map Filter.Motion.time

theorem Dated.clear (id : PointerId) (old fresh : Strategy α) :
    Dated id old.clear fresh.clear := by
  have hnone : ∀ v : Sight α, v.cleared.motion? = none := fun v => by
    cases v <;> rfl
  intro other
  left
  rw [sight_clear, sight_clear, hnone, hnone]

theorem Dated.clearPointers {id : PointerId} {old fresh : Strategy α}
    (h : Dated id old fresh) {gone : PointerSet} (hid : id ∉ gone) :
    Dated id (old.clearPointers gone) (fresh.clearPointers gone) := by
  have hnone : ∀ v : Sight α, v.forgotten.motion? = none := fun v => by
    cases v <;> rfl
  intro other
  simp only [sight_clearPointers, if_neg hid]
  by_cases hother : other ∈ gone
  · left
    rw [if_pos hother, if_pos hother, hnone, hnone]
  · simpa only [if_neg hother] using h other

variable [Scalar α]

theorem dated_ofPlan (id : PointerId) (old : Strategy α) (plan : Plan) :
    Dated id old (ofPlan plan) := by
  have hnone : ∀ other,
      ((ofPlan plan : Strategy α).sight other).motion? = none := by
    intro other
    rw [sight_ofPlan]
    cases plan <;> rfl
  intro other
  right
  rw [hnone, hnone]

section AddMovement

variable {id : PointerId} {old fresh : Strategy α} {m : Movement α}

/-- A movement that an older strategy takes is taken by a fresh one. -/
theorem Dated.error_addMovement (h : Dated id old fresh) (hid : id ∈ m.ids)
    (htrail : old.trail id = fresh.trail id)
    (hok : (old.addMovement m).error = none) :
    (fresh.addMovement m).error = none := by
  cases fresh with
  | ofTrack plan history =>
      rw [addMovement_ofTrack]
      exact error_record plan history m
  | filter order table =>
      cases old with
      | ofTrack plan history => simp [trail, sight, Sight.trail] at htrail
      | filter order' table' =>
          simp only [trail, sight, Sight.trail, Trail.filter.injEq] at htrail
          have hfree :=
            (Filter.error_addMovement_eq_none_iff order' m table').mp hok
          apply (Filter.error_addMovement_eq_none_iff order m table).mpr
          intro other hother
          -- a motion of the pointer's time is refused only where the pointer's
          -- own would be
          rcases h other with hsame | hdated
          · have hmotion : table.motion? other = table'.motion? other := hsame
            rw [hmotion]
            exact hfree other hother
          · have htime : (table.motion? other).map Filter.Motion.time =
                (table.motion? id).map Filter.Motion.time := hdated
            rw [Filter.refused_congr htime, ← htrail.2]
            exact hfree id hid

theorem Dated.addMovement (h : Dated id old fresh) (hid : id ∈ m.ids)
    (htrail : old.trail id = fresh.trail id)
    (hok : (old.addMovement m).error = none) :
    Dated id (old.addMovement m).state (fresh.addMovement m).state := by
  have hok' := h.error_addMovement hid htrail hok
  intro other
  simp only [sight_addMovement hok, sight_addMovement hok']
  cases fresh with
  | ofTrack plan history => exact .inr rfl
  | filter order table =>
      cases old with
      | ofTrack plan history => simp [trail, sight, Sight.trail] at htrail
      | filter order' table' =>
          simp only [trail, sight, Sight.trail, Trail.filter.injEq] at htrail
          rcases htrail with ⟨rfl, _⟩
          simp only [sight, Sight.seeing, Sight.motion?, Movement.glimpse]
          cases hposition : m.position? other with
          | none => exact .inl rfl
          | some p =>
              rcases h other with hsame | hdated
              · have hmotion : table.motion? other = table'.motion? other :=
                  hsame
                exact .inl (by rw [hmotion])
              · obtain ⟨q, hq⟩ :=
                  Option.isSome_iff_exists.mp
                    (Movement.isSome_position?.mpr hid)
                right
                rw [hq]
                exact congrArg some
                  (Filter.time_next_congr hdated order' m.time p q)

end AddMovement

end Strategy

/-- A new strategy starts the same trail whether or not it is told to merge. -/
theorem Strategy.moved_trail_ofPlan [Scalar α] (plan : Plan) (id : PointerId)
    (merges : Bool) (g : Glimpse α) :
    ((ofPlan plan).trail id).moved merges g =
      ((ofPlan plan).trail id).moved false g := by
  cases plan with
  | filter order => rfl
  | ofTrack plan =>
      rw [trail_ofPlan_ofTrack, Trail.moved, Trail.moved]
      cases g.position? with
      | none => rfl
      | some p => cases merges <;> rfl

namespace Tracker

variable [Scalar α]

/-- What every successful run from a new tracker keeps. -/
structure Sound (strategy : StrategyId) (settings : Settings α)
    (t : Tracker α) : Prop where
  settings : t.settings = settings
  consistent : t.Consistent
  lost : ∀ id, (t.strategy.trail id).lost =
    (Strategy.ofPlan strategy.plan).trail id

theorem sound_ofStrategy (strategy : StrategyId) (settings : Settings α) :
    Sound strategy settings (ofStrategy strategy settings) where
  settings := rfl
  consistent := consistent_ofStrategy strategy settings
  lost := fun id => Trail.lost_of_not_found (by
    rw [ofStrategy, Strategy.found_trail_ofPlan]
    exact Bool.false_ne_true)

theorem Sound.perform {strategy : StrategyId} {settings : Settings α}
    {t : Tracker α} (h : Sound strategy settings t) {pause : Int}
    (hpause : settings.stoppedTime = .ok pause) {step : Step α}
    (hok : (t.perform step.call).error = none) :
    Sound strategy settings (t.perform step.call).state := by
  rcases h with ⟨rfl, hconsistent, hlost⟩
  cases step with
  | add m =>
      rw [perform_add] at hok ⊢
      refine ⟨settings_addMovement hpause,
        consistent_addMovement hpause hok, ?_⟩
      intro id
      rw [strategy_addMovement hpause, Strategy.lost_trail_addMovement,
        lost_trail_strategyFor, hlost]
  | clear =>
      refine ⟨rfl, t.consistent_clear, ?_⟩
      intro id
      rw [perform_clear, Outcome.done, strategy_clear, Strategy.trail_clear,
        Trail.lost_lost, hlost]
  | clearPointers gone =>
      refine ⟨rfl, hconsistent.clearSet gone, ?_⟩
      intro id
      rw [perform_clearPointers, Outcome.done, strategy_clearSet,
        Strategy.trail_clearPointers]
      split
      · rw [Trail.lost_lost, hlost]
      · exact hlost id

theorem Sound.run {strategy : StrategyId} {settings : Settings α}
    {t : Tracker α} (h : Sound strategy settings t) {pause : Int}
    (hpause : settings.stoppedTime = .ok pause) {steps : List (Step α)}
    (hok : t.Succeeds steps) : Sound strategy settings (t.run steps) := by
  induction steps generalizing t with
  | nil => exact h
  | cons step rest ih => exact ih (h.perform hpause hok.1) hok.2

/-- Whether a movement joins a pointer to what was seen of it before its
absence. -/
def Bridges (t : Tracker α) (pause : Int) (id : PointerId)
    (m : Movement α) : Prop :=
  ((t.strategyFor pause m).sight id).Bridges m.time

/-- A tracker and a fresh one that go on in the same way for a pointer that is
current. -/
structure Rejoined (id : PointerId) (old fresh : Tracker α) : Prop where
  agree : AgreeOn id old fresh
  current : old.current = fresh.current
  consistentOld : old.Consistent
  consistentFresh : fresh.Consistent
  merged : (old.strategy.sight id).mergedTime? =
    (fresh.strategy.sight id).mergedTime?
  dated : Strategy.Dated id old.strategy fresh.strategy

namespace Rejoined

variable {id : PointerId} {old fresh : Tracker α}

omit [Scalar α] in
theorem clearSet (h : Rejoined id old fresh) {gone : PointerSet}
    (hid : id ∉ gone) :
    Rejoined id (old.clearSet gone) (fresh.clearSet gone) where
  agree := h.agree.clearSet Iff.rfl
  current := by
    rw [current_clearSet, current_clearSet, h.current]
  consistentOld := h.consistentOld.clearSet gone
  consistentFresh := h.consistentFresh.clearSet gone
  merged := by
    rw [strategy_clearSet, strategy_clearSet,
      Strategy.mergedTime?_clearPointers,
      Strategy.mergedTime?_clearPointers, h.merged]
  dated := h.dated.clearPointers hid

variable {pause : Int} {m : Movement α}

omit [Scalar α] in
theorem stops_eq (h : Rejoined id old fresh) (pause : Int) (m : Movement α) :
    old.stops pause m = fresh.stops pause m := by
  rw [stops, stops, h.current, h.agree.lastTime]

omit [Scalar α] in
theorem dated_strategyFor (h : Rejoined id old fresh) (pause : Int)
    (m : Movement α) :
    Strategy.Dated id (old.strategyFor pause m)
      (fresh.strategyFor pause m) := by
  rw [strategyFor, strategyFor, h.stops_eq]
  split
  · exact Strategy.Dated.clear id _ _
  · exact h.dated

omit [Scalar α] in
theorem trail_strategyFor_eq (h : Rejoined id old fresh) (pause : Int)
    (hid : id ∈ m.ids) :
    (old.strategyFor pause m).trail id =
      (fresh.strategyFor pause m).trail id := by
  rw [trail_strategyFor h.consistentOld pause hid,
    trail_strategyFor h.consistentFresh pause hid, h.current, h.agree.lastTime,
    h.agree.trail]

theorem error_addMovement (h : Rejoined id old fresh)
    (hpause : old.settings.stoppedTime = .ok pause) (hid : id ∈ m.ids)
    (hok : (old.addMovement m).error = none) :
    (fresh.addMovement m).error = none := by
  have hpause' : fresh.settings.stoppedTime = .ok pause :=
    h.agree.settings ▸ hpause
  rw [← error_strategyFor hpause']
  exact (h.dated_strategyFor pause m).error_addMovement hid
    (h.trail_strategyFor_eq pause hid)
    ((error_strategyFor hpause).trans hok)

/-- A movement with the pointer keeps the two trackers together. -/
theorem addMovement (h : Rejoined id old fresh)
    (hpause : old.settings.stoppedTime = .ok pause)
    (hcurrent : id ∈ old.current) (hid : id ∈ m.ids)
    (hok : (old.addMovement m).error = none) :
    Rejoined id (old.addMovement m).state (fresh.addMovement m).state := by
  have hpause' : fresh.settings.stoppedTime = .ok pause :=
    h.agree.settings ▸ hpause
  have hok' := h.error_addMovement hpause hid hok
  have hplan : old.strategy.plan = fresh.strategy.plan :=
    Strategy.plan_eq_of_trail_eq h.agree.trail
  refine ⟨?_, ?_, ?_, ?_, ?_, ?_⟩
  · apply h.agree.addMovement h.consistentOld h.consistentFresh
      hpause rfl hok hok'
    · intro _
      rw [merges_strategyFor, merges_strategyFor, h.stops_eq, Sight.merges,
        Sight.merges, h.merged]
    · exact fun _ => hcurrent
  · rw [current_addMovement hpause, current_addMovement hpause']
  · exact consistent_addMovement hpause hok
  · exact consistent_addMovement hpause' hok'
  · rw [mergedTime?_addMovement hpause hok,
      mergedTime?_addMovement hpause' hok', hplan]
  · rw [strategy_addMovement hpause, strategy_addMovement hpause']
    exact (h.dated_strategyFor pause m).addMovement hid
      (h.trail_strategyFor_eq pause hid)
      ((error_strategyFor hpause).trans hok)

end Rejoined

section Join

variable {strategy : StrategyId} {settings : Settings α} {t : Tracker α}
    {pause : Int} {id : PointerId} {m : Movement α}

theorem strategyFor_ofStrategy (strategy : StrategyId) (settings : Settings α)
    (pause : Int) (m : Movement α) :
    (ofStrategy strategy settings).strategyFor pause m =
      Strategy.ofPlan strategy.plan := by
  have hstops : ¬ (ofStrategy strategy settings).stops pause m = true := by
    rw [stops_iff]
    rintro ⟨⟨id, hcurrent, _⟩, _⟩
    exact PointerSet.not_mem_empty id hcurrent
  rw [strategyFor, if_neg hstops]
  rfl

/-- A movement finds a pointer that is absent as a new strategy would know
it. -/
theorem Sound.trail_strategyFor (h : Sound strategy settings t)
    (habsent : id ∉ t.current) (hid : id ∈ m.ids) :
    (t.strategyFor pause m).trail id =
      (Strategy.ofPlan strategy.plan).trail id := by
  have hlost : ¬ (t.strategy.trail id).found = true :=
    fun hfound => habsent ((h.consistent id).mp hfound)
  rw [Tracker.trail_strategyFor h.consistent pause hid,
    if_neg fun hstop => habsent hstop.1, ← h.lost id,
    Trail.lost_of_not_found hlost]

/-- What is taken when a pointer joins is taken by a new tracker. -/
theorem Sound.error_ofStrategy (h : Sound strategy settings t)
    (hpause : settings.stoppedTime = .ok pause) (habsent : id ∉ t.current)
    (hid : id ∈ m.ids) (hok : (t.addMovement m).error = none) :
    ((ofStrategy strategy settings).addMovement m).error = none := by
  have hpause' : t.settings.stoppedTime = .ok pause := h.settings ▸ hpause
  have hdated := Strategy.dated_ofPlan id (t.strategyFor pause m) strategy.plan
  rw [← error_strategyFor hpause, strategyFor_ofStrategy]
  exact hdated.error_addMovement hid (h.trail_strategyFor habsent hid)
    ((error_strategyFor hpause').trans hok)

/-- A pointer that joins has the trail that a new tracker gives it unless there
is a bridge. -/
theorem Sound.trail_eq_iff (h : Sound strategy settings t)
    (hpause : settings.stoppedTime = .ok pause) (habsent : id ∉ t.current)
    (hid : id ∈ m.ids) (hok : (t.addMovement m).error = none) :
    (t.addMovement m).state.strategy.trail id =
        ((ofStrategy strategy settings).addMovement m).state.strategy.trail id ↔
      ¬ t.Bridges pause id m := by
  have hpause' : t.settings.stoppedTime = .ok pause := h.settings ▸ hpause
  have hok' := h.error_ofStrategy hpause habsent hid hok
  have hfound : (t.strategyFor pause m).trail id =
      (Strategy.ofPlan strategy.plan).trail id :=
    h.trail_strategyFor habsent hid
  have hlost : ¬ ((t.strategyFor pause m).trail id).found = true := by
    rw [hfound, Strategy.found_trail_ofPlan]
    exact Bool.false_ne_true
  have hposition : (m.glimpse id).position? ≠ none :=
    fun hnone => Movement.position?_eq_none_iff.mp hnone hid
  have hnew :
      ((ofStrategy strategy settings).addMovement m).state.strategy.trail id =
      ((Strategy.ofPlan strategy.plan).trail id).moved false
        (m.glimpse id) := by
    have hmerges :
        ¬ ((Strategy.ofPlan strategy.plan : Strategy α).sight id).merges
          m.time = true := by
      rw [Sight.merges, Strategy.mergedTime?_sight_ofPlan]
      exact Bool.false_ne_true
    rw [trail_addMovement hpause (consistent_ofStrategy strategy settings) hok',
      strategyFor_ofStrategy, Strategy.moved_trail_ofPlan]
    rw [strategyFor_ofStrategy]
    exact fun hmerge => absurd hmerge hmerges
  have hjoin := Sight.trail_seeing_of_lost hlost hposition
  rw [← Strategy.trail, hfound, Strategy.moved_trail_ofPlan] at hjoin
  rw [hnew, strategy_addMovement hpause', Strategy.trail,
    Strategy.sight_addMovement ((error_strategyFor hpause').trans hok)]
  exact hjoin

/-- Without a bridge a tracker goes on like a new one for a pointer that
joins. -/
theorem Sound.rejoined (h : Sound strategy settings t)
    (hpause : settings.stoppedTime = .ok pause) (habsent : id ∉ t.current)
    (hid : id ∈ m.ids) (hok : (t.addMovement m).error = none)
    (hbridges : ¬ t.Bridges pause id m) :
    Rejoined id (t.addMovement m).state
      ((ofStrategy strategy settings).addMovement m).state := by
  have hpause' : t.settings.stoppedTime = .ok pause := h.settings ▸ hpause
  have hok' := h.error_ofStrategy hpause habsent hid hok
  have htrail := (h.trail_eq_iff hpause habsent hid hok).mpr hbridges
  have hplan := Strategy.plan_eq_of_trail_eq htrail
  have hcurrent : (t.addMovement m).state.current =
      ((ofStrategy strategy settings).addMovement m).state.current := by
    rw [current_addMovement hpause', current_addMovement hpause]
  refine ⟨⟨?_, ?_, ?_, htrail⟩, hcurrent, ?_, ?_, ?_, ?_⟩
  · rw [settings_addMovement hpause', settings_addMovement hpause, h.settings]
    rfl
  · rw [lastTime_addMovement hpause', lastTime_addMovement hpause]
  · rw [hcurrent]
  · exact consistent_addMovement hpause' hok
  · exact consistent_addMovement hpause hok'
  · rw [plan_addMovement hpause', plan_addMovement hpause] at hplan
    rw [mergedTime?_addMovement hpause' hok,
      mergedTime?_addMovement hpause hok', hplan]
  · rw [strategy_addMovement hpause', strategy_addMovement hpause,
      strategyFor_ofStrategy]
    exact (Strategy.dated_ofPlan id _ _).addMovement hid
      (h.trail_strategyFor habsent hid)
      ((error_strategyFor hpause').trans hok)

end Join

/-- Trackers that are together stay together while the pointer is current. -/
theorem Rejoined.run {id : PointerId} {old fresh : Tracker α}
    (h : Rejoined id old fresh) {pause : Int}
    (hpause : old.settings.stoppedTime = .ok pause) {later : List (Step α)}
    (hok : old.Succeeds later)
    (hstay : ∀ count, id ∈ (old.run (later.take count)).current) :
    fresh.Succeeds later ∧ Rejoined id (old.run later) (fresh.run later) := by
  induction later generalizing old fresh with
  | nil => exact ⟨trivial, h⟩
  | cons step rest ih =>
      have hnow : id ∈ old.current := hstay 0
      have hnext : id ∈ (old.perform step.call).state.current := hstay 1
      have hrest : ∀ count,
          id ∈ ((old.perform step.call).state.run (rest.take count)).current :=
        fun count => hstay (count + 1)
      rcases hok with ⟨hfirst, hok⟩
      rw [Succeeds, run_cons, run_cons]
      cases step with
      | add m =>
          rw [perform_add] at hfirst hok hnext hrest ⊢
          rw [perform_add]
          have hid : id ∈ (m.lowest maxPointers).ids := by
            rwa [current_addMovement hpause] at hnext
          have hpause' :
              (old.addMovement
                (m.lowest maxPointers)).state.settings.stoppedTime =
              .ok pause := by
            rwa [settings_addMovement hpause]
          obtain ⟨hsucceeds, hrejoined⟩ :=
            ih (h.addMovement hpause hnow hid hfirst) hpause' hok hrest
          exact ⟨⟨h.error_addMovement hpause hid hfirst, hsucceeds⟩, hrejoined⟩
      -- a clearing would end the stay
      | clear => exact absurd hnext (PointerSet.not_mem_empty id)
      | clearPointers gone =>
          have hkept : id ∉ gone := (PointerSet.mem_sdiff.mp hnext).2
          obtain ⟨hsucceeds, hrejoined⟩ :=
            ih (h.clearSet hkept) hpause hok hrest
          exact ⟨⟨rfl, hsucceeds⟩, hrejoined⟩

/-- From a joining on, a run goes as it goes from a new tracker, unless there is
a bridge. -/
theorem Sound.run_join {strategy : StrategyId} {settings : Settings α}
    {t : Tracker α} (h : Sound strategy settings t) {pause : Int}
    (hpause : settings.stoppedTime = .ok pause) {id : PointerId}
    (habsent : id ∉ t.current) {m : Movement α} {later : List (Step α)}
    (hok : t.Succeeds (.add m :: later))
    (hstay : ∀ count, id ∈ (t.run (.add m :: later.take count)).current) :
    ((t.run [.add m]).strategy.trail id =
        ((ofStrategy strategy settings).run [.add m]).strategy.trail id ↔
      ¬ t.Bridges pause id (m.lowest maxPointers)) ∧
    (¬ t.Bridges pause id (m.lowest maxPointers) →
      (ofStrategy strategy settings).Succeeds (.add m :: later) ∧
        (t.run (.add m :: later)).estimate id =
          ((ofStrategy strategy settings).run
            (.add m :: later)).estimate id) := by
  have hpause' : t.settings.stoppedTime = .ok pause := by rwa [h.settings]
  simp only [run_cons, perform_add] at hstay ⊢
  rw [Succeeds, perform_add] at hok
  rcases hok with ⟨hjoin, hlater⟩
  have hid : id ∈ (m.lowest maxPointers).ids := by
    have hjoined : id ∈ (t.addMovement (m.lowest maxPointers)).state.current :=
      hstay 0
    rwa [current_addMovement hpause'] at hjoined
  refine ⟨h.trail_eq_iff hpause habsent hid hjoin, ?_⟩
  intro hbridges
  have hrejoined := h.rejoined hpause habsent hid hjoin hbridges
  have hpauseNext :
      (t.addMovement (m.lowest maxPointers)).state.settings.stoppedTime =
      .ok pause := by
    rwa [settings_addMovement hpause']
  obtain ⟨hsucceeds, hend⟩ := hrejoined.run hpauseNext hlater hstay
  rw [Succeeds, perform_add]
  exact ⟨⟨h.error_ofStrategy hpause habsent hid hjoin, hsucceeds⟩,
    hend.agree.estimate⟩

/-- Whether a pointer is absent before a movement, joins with it and stays. -/
def LastJoin (t : Tracker α) (id : PointerId) (before : List (Step α))
    (m : Movement α) (later : List (Step α)) : Prop :=
  id ∉ (t.run before).current ∧
    ∀ count, id ∈ (t.run (before ++ .add m :: later.take count)).current

/-- A pointer that was absent and is current has joined with some movement and
stayed. -/
theorem exists_lastJoin {t : Tracker α} {id : PointerId}
    (habsent : id ∉ t.current) {steps : List (Step α)}
    (hcurrent : id ∈ (t.run steps).current) :
    ∃ before m later, steps = before ++ .add m :: later ∧
      t.LastJoin id before m later := by
  induction steps using List.reverseRecOn with
  | nil => exact absurd hcurrent habsent
  | append_singleton init step ih =>
      -- either the pointer was there before the last step, or it joins with it
      by_cases hinit : id ∈ (t.run init).current
      · obtain ⟨before, m, later, rfl, hjoin, hstay⟩ := ih hinit
        refine ⟨before, m, later ++ [step], by simp, hjoin, ?_⟩
        intro count
        by_cases hcount : count ≤ later.length
        · rw [List.take_append_of_le_length hcount]
          exact hstay count
        · rw [List.take_of_length_le (by simp; omega)]
          simpa using hcurrent
      · rw [run_append] at hcurrent
        cases step with
        | add m =>
            refine ⟨init, m, [], rfl, hinit, ?_⟩
            intro count
            rw [List.take_nil, run_append]
            exact hcurrent
        | clear => exact absurd hcurrent (PointerSet.not_mem_empty id)
        | clearPointers gone =>
            exact absurd (PointerSet.mem_sdiff.mp hcurrent).1 hinit

/-- A current pointer has joined for the last time somewhere in the run.  At
that point it has the trail that a new tracker gives it exactly when there is no
bridge; and if there is none, a new tracker given the rest of the run ends with
the same estimate of it. -/
theorem estimate_run_lastJoin (strategy : StrategyId) {settings : Settings α}
    {pause : Int} (hpause : settings.stoppedTime = .ok pause) (id : PointerId)
    {steps : List (Step α)}
    (hok : (ofStrategy strategy settings).Succeeds steps)
    (hcurrent : id ∈ ((ofStrategy strategy settings).run steps).current) :
    ∃ before m later, steps = before ++ .add m :: later ∧
      (ofStrategy strategy settings).LastJoin id before m later ∧
      (((ofStrategy strategy settings).run
            (before ++ [.add m])).strategy.trail id =
          ((ofStrategy strategy settings).run [.add m]).strategy.trail id ↔
        ¬ ((ofStrategy strategy settings).run before).Bridges pause id
          (m.lowest maxPointers)) ∧
      (¬ ((ofStrategy strategy settings).run before).Bridges pause id
        (m.lowest maxPointers) →
        (ofStrategy strategy settings).Succeeds (.add m :: later) ∧
          ((ofStrategy strategy settings).run steps).estimate id =
            ((ofStrategy strategy settings).run
              (.add m :: later)).estimate id) := by
  obtain ⟨before, m, later, rfl, hlast⟩ :=
    exists_lastJoin (PointerSet.not_mem_empty id) hcurrent
  obtain ⟨hbefore, hrest⟩ := (succeeds_append _ _ _).mp hok
  have hsound := (sound_ofStrategy strategy settings).run hpause hbefore
  have hstay : ∀ count, id ∈ (((ofStrategy strategy settings).run before).run
      (.add m :: later.take count)).current := by
    intro count
    rw [← run_append]
    exact hlast.2 count
  refine ⟨before, m, later, rfl, hlast, ?_⟩
  rw [run_append, run_append]
  exact hsound.run_join hpause hlast.1 hrest hstay

theorem estimate_run_returningRun :
    ∃ before m later, returningRun = before ++ .add m :: later ∧
      (ofStrategy .lsq2 Settings.standard).LastJoin 1 before m later ∧
      (((ofStrategy .lsq2 Settings.standard).run
            (before ++ [.add m])).strategy.trail 1 =
          ((ofStrategy .lsq2 Settings.standard).run [.add m]).strategy.trail 1 ↔
        ¬ ((ofStrategy .lsq2 Settings.standard).run before).Bridges 40000000 1
          (m.lowest maxPointers)) ∧
      (¬ ((ofStrategy .lsq2 Settings.standard).run before).Bridges 40000000 1
          (m.lowest maxPointers) →
        (ofStrategy .lsq2 Settings.standard).Succeeds (.add m :: later) ∧
          ((ofStrategy .lsq2 Settings.standard).run returningRun).estimate 1 =
            ((ofStrategy .lsq2 Settings.standard).run
                (.add m :: later)).estimate 1) :=
  estimate_run_lastJoin .lsq2 (by rfl) 1 (by decide +kernel) (by decide +kernel)

/-- Across a bridge, what was seen of a pointer before its absence changes its
estimate. -/
theorem estimate_run_bridging_ne :
    (ofStrategy .lsq2 Settings.standard).Succeeds
      (leavingRun ++ [.add bridgingMovement]) ∧
      (ofStrategy .lsq2 Settings.standard).LastJoin 1 leavingRun
        bridgingMovement [] ∧
      ((ofStrategy .lsq2 Settings.standard).run
        (leavingRun ++ [.add bridgingMovement])).estimate 1 ≠
        ((ofStrategy .lsq2 Settings.standard).run
            [.add bridgingMovement]).estimate 1 := by
  refine ⟨by decide +kernel, ⟨by decide +kernel, ?_⟩, by decide +kernel⟩
  intro count
  rw [List.take_nil]
  decide +kernel

end Tracker

end PointerMotion
