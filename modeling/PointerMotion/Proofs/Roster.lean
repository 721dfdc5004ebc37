/-
Who is present, by the tracker and by its strategy.  Every step keeps the two
together, whether or not it is refused.
-/
import PointerMotion.Proofs.Delivery
import PointerMotion.Proofs.Trail

namespace PointerMotion

variable {α : Type}

theorem PointerSet.card_sdiff_le (s t : PointerSet) :
    (s \ t).card ≤ s.card := by
  rw [card_eq_countP, card_eq_countP]
  apply List.countP_mono_left
  intro id _ hid
  exact decide_eq_true (mem_sdiff.mp (of_decide_eq_true hid)).1

/-- What no operation changes about a strategy: what it looks for and how much
it can keep. -/
inductive Make where
  | ofTrack (plan : TrackPlan) (capacity : Nat)
  | filter (order : Filter.Order)
  deriving DecidableEq

def Make.plan : Make → Plan
  | ofTrack plan _ => .ofTrack plan
  | filter order => .filter order

namespace History

theorem newest?_removePointers (h : History α) (gone : PointerSet) :
    (h.removePointers gone).newest? = h.newest?.map (·.without gone) := by
  rw [newest?_eq_head?, newestFirst_removePointers, List.head?_map,
    newest?_eq_head?]

theorem newest?_record (plan : TrackPlan) (h : History α) (m : Movement α) :
    (Strategy.record plan h m).state.newest? = some m := by
  rw [Strategy.state_record, newest?_eq_head?]
  split
  · rw [newestFirst_replaceNewest]
    rfl
  · rw [newestFirst_append, List.head?_take,
      if_neg (Nat.ne_of_gt h.capacity_pos)]
    rfl

/-- A pointer has a track when the newest movement shows it. -/
theorem track_ne_nil_iff (h : History α) (id : PointerId) {limits : TrackLimits}
    (hhorizon : 0 ≤ limits.horizon) :
    h.track id limits ≠ [] ↔ ∃ m, h.newest? = some m ∧ id ∈ m.ids := by
  rw [newest?_eq_head?, track]
  cases h.newestFirst with
  | nil => simp [trackThrough]
  | cons m rest =>
      cases hposition : m.position? id with
      | none =>
          simpa [trackThrough,
            hposition] using Movement.position?_eq_none_iff.mp hposition
      | some p =>
          have hmember : id ∈ m.ids :=
            Movement.isSome_position?.mp (by rw [hposition]; rfl)
          simp [trackThrough, hposition, hhorizon, hmember]

end History

namespace Strategy

def make : Strategy α → Make
  | ofTrack plan history => .ofTrack plan history.capacity
  | filter order _ => .filter order

@[simp] theorem plan_make (s : Strategy α) : s.make.plan = s.plan := by
  cases s <;> rfl

theorem plan_eq_of_make {s t : Strategy α} (h : s.make = t.make) :
    s.plan = t.plan := by
  rw [← plan_make, h, plan_make]

@[simp] theorem make_clear (s : Strategy α) : s.clear.make = s.make := by
  cases s <;> simp [clear, make]

@[simp] theorem make_clearPointers (s : Strategy α) (gone : PointerSet) :
    (s.clearPointers gone).make = s.make := by
  cases s <;> simp [clearPointers, make]

/-- The pointers of the latest movement and its time, as a strategy keeps
them. -/
def Shows (s : Strategy α) (ids : PointerSet) (time : Int) : Prop :=
  match s with
  | ofTrack _ history =>
      (history.newestFirst = [] ∧ ids = ∅) ∨
        ∃ m, history.newest? = some m ∧ m.ids = ids ∧ m.time = time
  | filter _ table => table.known = ids

theorem shows_clear (s : Strategy α) (time : Int) : s.clear.Shows ∅ time := by
  cases s with
  | ofTrack plan history => exact .inl ⟨history.newestFirst_clear, rfl⟩
  | filter order table => exact table.known_withKnown ∅

theorem Shows.clearPointers {s : Strategy α} {ids : PointerSet} {time : Int}
    (h : s.Shows ids time) (gone : PointerSet) :
    (s.clearPointers gone).Shows (ids \ gone) time := by
  cases s with
  | ofTrack plan history =>
      rcases h with ⟨hnil, rfl⟩ | ⟨m, hnewest, rfl, rfl⟩
      · refine .inl ⟨?_, PointerSet.ext_of_mem fun id => by simp⟩
        rw [History.newestFirst_removePointers, hnil]
        rfl
      · refine .inr ⟨m.without gone, ?_, rfl, rfl⟩
        rw [History.newest?_removePointers, hnewest]
        rfl
  | filter order table =>
      have hknown : table.known = ids := h
      rw [← hknown]
      exact table.known_withKnown _

variable [Scalar α]

@[simp] theorem make_addMovement (s : Strategy α) (m : Movement α) :
    (s.addMovement m).state.make = s.make := by
  cases s with
  | ofTrack plan history =>
      rw [addMovement_ofTrack]
      simp [Outcome.map, make]
  | filter order table => rfl

/-- A movement that the strategy can keep becomes the latest one. -/
theorem shows_addMovement {s : Strategy α} {m : Movement α}
    (htime : s.plan.HoldsTime m.time) :
    (s.addMovement m).state.Shows m.ids m.time := by
  cases s with
  | ofTrack plan history =>
      rw [addMovement_ofTrack]
      exact .inr ⟨m, history.newest?_record plan m, rfl, rfl⟩
  | filter order table =>
      have hok := error_addMovement_of_holdsTime htime
      rw [addMovement_filter] at hok ⊢
      exact Filter.known_addMovement hok

end Strategy

namespace TrackPlan

variable [Scalar α]

theorem estimate_nil (plan : TrackPlan) :
    plan.estimate ([] : List (TrackPoint α)) = none := by
  cases plan <;> rfl

/-- One point is enough for an estimate, except for one from impulses. -/
theorem isSome_estimate_cons {plan : TrackPlan} (h : plan ≠ .impulse)
    (p : TrackPoint α) (rest : List (TrackPoint α)) :
    (plan.estimate (p :: rest)).isSome = true := by
  cases plan with
  | regression plan =>
      rw [estimate, Regression.estimate]
      split <;> rfl
  | impulse => exact absurd rfl h
  | average =>
      obtain ⟨oldest, later, hcons⟩ :=
        List.exists_cons_of_ne_nil
          (List.reverse_ne_nil_iff.mpr (List.cons_ne_nil p rest))
      simp only [estimate, Average.estimate, hcons]
      split <;> rfl

end TrackPlan

namespace Strategy

variable [Scalar α] {s : Strategy α} {ids : PointerSet} {time : Int}

/-- There is a track in a history, or a motion in a filter, of the pointers that
are shown. -/
theorem Shows.mem_of_isSome_estimate (h : s.Shows ids time) {id : PointerId}
    (hsome : (s.estimate id).isSome = true) : id ∈ ids := by
  cases s with
  | ofTrack plan history =>
      have htrack : history.track id plan.limits ≠ [] := by
        intro hnil
        rw [estimate, hnil, plan.estimate_nil] at hsome
        cases hsome
      obtain ⟨m, hm, hid⟩ :=
        (history.track_ne_nil_iff id plan.horizon_nonneg).mp htrack
      rcases h with ⟨hempty, -⟩ | ⟨n, hn, rfl, -⟩
      · rw [History.newest?_eq_head?, hempty] at hm
        cases hm
      · rw [hn] at hm
        exact Option.some.inj hm ▸ hid
  | filter order table =>
      have hknown : table.known = ids := h
      rw [estimate, Option.isSome_map, Filter.Table.isSome_motion?,
        hknown] at hsome
      exact hsome

theorem Shows.isSome_estimate (h : s.Shows ids time)
    (hplan : s.plan ≠ .ofTrack .impulse) {id : PointerId} (hid : id ∈ ids) :
    (s.estimate id).isSome = true := by
  cases s with
  | ofTrack plan history =>
      have hpoint : plan ≠ .impulse :=
        fun heq => hplan (congrArg Plan.ofTrack heq)
      rcases h with ⟨-, rfl⟩ | ⟨m, hm, rfl, -⟩
      · exact absurd hid (PointerSet.not_mem_empty id)
      · have htrack :=
          (history.track_ne_nil_iff id plan.horizon_nonneg).mpr ⟨m, hm, hid⟩
        obtain ⟨p, rest, hcons⟩ := List.exists_cons_of_ne_nil htrack
        rw [estimate, hcons]
        exact TrackPlan.isSome_estimate_cons hpoint p rest
  | filter order table =>
      have hknown : table.known = ids := h
      rw [estimate, Option.isSome_map, Filter.Table.isSome_motion?, hknown]
      exact hid

end Strategy

namespace Tracker

variable [Scalar α]

/-- A movement whose pause is measured is added to the strategy, perhaps after a
stop. -/
theorem addMovement_of_stoppedBy {t : Tracker α} {m : Movement α}
    {stopped : Bool} (h : t.stoppedBy m.ids m.time = .ok stopped) :
    t.addMovement m =
      ((if stopped then t.strategy.clear else t.strategy).addMovement m).map
        fun strategy =>
          { t.setCurrent m.ids with
            lastTime := m.time, strategy := strategy } := by
  rw [addMovement_eq, h]
  rfl

/-- A movement is refused for its pause and changes nothing, or the pause is
measured. -/
theorem addMovement_cases (t : Tracker α) (m : Movement α) :
    (∃ e, t.stoppedBy m.ids m.time = .error e ∧
      t.addMovement m = .failed t (.conversion e)) ∨
      ∃ stopped, t.stoppedBy m.ids m.time = .ok stopped := by
  cases hstopped : t.stoppedBy m.ids m.time with
  | error e =>
      refine .inl ⟨e, rfl, ?_⟩
      rw [addMovement_eq, hstopped]
      rfl
  | ok stopped => exact .inr ⟨stopped, rfl⟩

/-- The settings and the make of the strategy are the same after a step. -/
theorem make_perform_step (t : Tracker α) (step : Step α) :
    (t.perform step.call).state.settings = t.settings ∧
      (t.perform step.call).state.strategy.make = t.strategy.make := by
  cases step with
  | add m =>
      rw [perform_add]
      rcases t.addMovement_cases (m.lowest maxPointers) with ⟨e, -, hadd⟩ |
        ⟨stopped, hstopped⟩
      · rw [hadd]
        exact ⟨rfl, rfl⟩
      · rw [addMovement_of_stoppedBy hstopped]
        refine ⟨rfl, (Strategy.make_addMovement _ _).trans ?_⟩
        split
        · exact t.strategy.make_clear
        · rfl
  | clear => exact ⟨rfl, t.strategy.make_clear⟩
  | clearPointers gone => exact ⟨rfl, t.strategy.make_clearPointers gone⟩

theorem make_after (t : Tracker α) (calls : List (Call α)) :
    (t.after calls).settings = t.settings ∧
      (t.after calls).strategy.make = t.strategy.make := by
  apply after_induction (P := fun u => u.settings = t.settings ∧
    u.strategy.make = t.strategy.make) _ ⟨rfl, rfl⟩
  rintro c - step - u ⟨hsettings, hmake⟩
  have hstep := u.make_perform_step step
  exact ⟨hstep.1.trans hsettings, hstep.2.trans hmake⟩

theorem plan_perform_step (t : Tracker α) (step : Step α) :
    (t.perform step.call).state.strategy.plan = t.strategy.plan :=
  Strategy.plan_eq_of_make (t.make_perform_step step).2

@[simp] theorem plan_ofStrategy (strategy : StrategyId)
    (settings : Settings α) :
    (ofStrategy strategy settings).strategy.plan = strategy.plan :=
  Strategy.plan_ofPlan strategy.plan

theorem plan_after_ofStrategy (strategy : StrategyId) (settings : Settings α)
    (calls : List (Call α)) :
    ((ofStrategy strategy settings).after calls).strategy.plan =
      strategy.plan :=
  (Strategy.plan_eq_of_make (make_after _ calls).2).trans
    (plan_ofStrategy strategy settings)

omit [Scalar α] in
theorem card_empty_le : (∅ : PointerSet).card ≤ maxPointers := by
  rw [PointerSet.card_empty]
  exact Nat.zero_le _

/-- The strategy keeps the current pointers, at most sixteen, as the tracker
does. -/
structure InStep (t : Tracker α) : Prop where
  card_le : t.current.card ≤ maxPointers
  shows : t.strategy.Shows t.current t.lastTime

theorem inStep_ofStrategy (strategy : StrategyId) (settings : Settings α) :
    (ofStrategy strategy settings).InStep := by
  refine ⟨card_empty_le, ?_⟩
  rw [ofStrategy]
  cases strategy.plan with
  | ofTrack plan => exact .inl ⟨History.newestFirst_ofCapacity _ _, rfl⟩
  | filter order => rfl

/-- A step keeps tracker and strategy together if the strategy can keep its
time. -/
theorem InStep.perform {t : Tracker α} (h : t.InStep) {step : Step α}
    (htime : ∀ time, step.time? = some time → t.strategy.plan.HoldsTime time) :
    (t.perform step.call).state.InStep := by
  cases step with
  | add m =>
      rw [perform_add]
      rcases t.addMovement_cases (m.lowest maxPointers) with ⟨e, -, hadd⟩ |
        ⟨stopped, hstopped⟩
      · rw [hadd]
        exact h
      · have hcard : (m.ids.lowest maxPointers).card ≤ maxPointers := by
          rw [PointerSet.card_lowest]
          exact Nat.min_le_left _ _
        rw [addMovement_of_stoppedBy hstopped]
        refine ⟨hcard, Strategy.shows_addMovement ?_⟩
        rw [t.strategy.plan_ite_clear]
        exact htime m.time rfl
  | clear => exact ⟨card_empty_le, t.strategy.shows_clear t.lastTime⟩
  | clearPointers gone =>
      exact ⟨Nat.le_trans (PointerSet.card_sdiff_le _ _) h.card_le,
        h.shows.clearPointers gone⟩

/-- Every run keeps tracker and strategy together if the strategy can keep all
times. -/
theorem InStep.after {t : Tracker α} (h : t.InStep) {calls : List (Call α)}
    (htimes : ∀ time ∈ calls.flatMap Call.times,
      t.strategy.plan.HoldsTime time) :
    (t.after calls).InStep := by
  have hkept : (t.after calls).InStep ∧
      (t.after calls).strategy.make = t.strategy.make := by
    apply after_induction (P :=
        fun u => u.InStep ∧ u.strategy.make = t.strategy.make) _ ⟨h, rfl⟩
    rintro c hc step hstep u ⟨hu, hmake⟩
    refine ⟨hu.perform ?_, (u.make_perform_step step).2.trans hmake⟩
    intro time htime
    rw [Strategy.plan_eq_of_make hmake]
    exact htimes time (List.mem_flatMap.mpr ⟨c, hc, Call.mem_times hstep htime⟩)
  exact hkept.1

/-- After any run the strategy shows the current pointers, at most sixteen, at
the latest time.  An estimate is given of current pointers alone, and of each of
them unless it is made from impulses. -/
theorem shows_current_after (strategy : StrategyId) (settings : Settings α)
    {calls : List (Call α)}
    (htimes : ∀ time ∈ calls.flatMap Call.times, strategy.plan.HoldsTime time) :
    let t := (ofStrategy strategy settings).after calls
    t.current.card ≤ maxPointers ∧
      (t.strategy.plan = strategy.plan ∧
      t.strategy.Shows t.current t.lastTime) ∧
      ∀ id, ((t.answer id).1 = true → id ∈ t.current) ∧
        (strategy ≠ .impulse → id ∈ t.current → (t.answer id).1 = true) := by
  intro t
  have hfirst : (ofStrategy strategy settings).strategy.plan = strategy.plan :=
    Strategy.plan_ofPlan strategy.plan
  have hinStep : t.InStep :=
    (inStep_ofStrategy strategy settings).after (by rwa [hfirst])
  have hplan : t.strategy.plan = strategy.plan :=
    plan_after_ofStrategy strategy settings calls
  refine ⟨hinStep.card_le, ⟨hplan, hinStep.shows⟩, ?_⟩
  intro id
  constructor
  · exact hinStep.shows.mem_of_isSome_estimate
  · intro hstrategy hid
    apply hinStep.shows.isSome_estimate _ hid
    rw [hplan]
    revert hstrategy
    cases strategy <;> decide

/-- Pointers come and go, also by an event, and a movement of an unknown id is
refused. -/
def mixedCalls : List (Call Float) :=
  [.add (.whole 0) (.known (.ofList [1, 5])) [.ofPosition ⟨0.0, 0.0⟩,
    .ofPosition ⟨7.0, 3.0⟩],
    .add (.whole 5000000) (.listed [40]) [.ofPosition ⟨1.0, 1.0⟩], .event
      { action := .pointerDown
        ids := [5]
        history := []
        final := ⟨.whole 10000000, [.ofPosition ⟨9.0, 4.0⟩]⟩
        actionIndex := 0 },
    .clearPointers (.listed [1])]

theorem shows_current_after_mixedCalls :
    let t := (ofStrategy .int2 Settings.standard).after mixedCalls
    t.strategy.Shows t.current t.lastTime ∧ (t.answer 5).1 = true := by
  have htimes : ∀ time ∈ mixedCalls.flatMap Call.times,
      StrategyId.int2.plan.HoldsTime time := by
    decide +kernel
  have hroster := shows_current_after .int2 Settings.standard htimes
  exact ⟨hroster.2.1.2, (hroster.2.2 5).2 (by decide) (by decide +kernel)⟩

end Tracker

end PointerMotion
