/-
A tracker that starts over is as good as new.  What a clearing leaves, the time
of the latest movement and the filter's rows, is not looked at again.
-/
import PointerMotion.Proofs.Presence
import PointerMotion.Proofs.Removal
import PointerMotion.Proofs.Roster

namespace PointerMotion

variable {α : Type}

namespace Strategy

/-- Strategies of one make have forgotten everything alike. -/
theorem alike_clear_of_make {s t : Strategy α} (h : s.make = t.make)
    (masked : PointerSet) :
    s.clear.AlikeOff masked t.clear := by
  cases s with
  | ofTrack plan history =>
      cases t with
      | ofTrack plan' history' =>
          obtain ⟨rfl, hcapacity⟩ := Make.ofTrack.inj h
          exact .ofTrack
            { capacity := by simpa using hcapacity
              times := by simp [History.times]
              glimpses := fun id _ => by simp }
      | filter order table => cases h
  | filter order table =>
      cases t with
      | ofTrack plan history => cases h
      | filter order' table' =>
          obtain rfl := Make.filter.inj h
          exact .filter Filter.Table.alike_withKnown_empty

/-- A strategy that has seen nothing has nothing to forget. -/
theorem clear_ofPlan [Scalar α] (plan : Plan) :
    (ofPlan plan : Strategy α).clear = ofPlan plan := by
  cases plan with
  | ofTrack plan => rfl
  | filter order => rfl

end Strategy

namespace Call

/-- Whether a call forgets everything before it does anything else. -/
def startsOver : Call α → Bool
  | clear => true
  | event e => e.action = .down || e.action = .hoverEnter
  | _ => false

theorem steps_of_startsOver [Scalar α] {c : Call α} (h : c.startsOver = true) :
    ∃ rest, c.steps = .ok .clear :: rest := by
  cases c with
  | add time ids points => cases h
  | clear => exact ⟨[], rfl⟩
  | clearPointers gone => cases h
  | event e =>
      rw [startsOver, Bool.or_eq_true, decide_eq_true_eq,
        decide_eq_true_eq] at h
      rw [steps, MotionEvent.steps]
      rcases h with haction | haction
      · rw [haction]
        exact ⟨e.sampleSteps, rfl⟩
      · rw [haction]
        exact ⟨e.sampleSteps, rfl⟩

end Call

namespace Tracker

/-- Trackers that nothing tells apart from now on, but for the order in which
pointers joined. -/
structure SameAhead (left right : Tracker α) : Prop where
  settings : left.settings = right.settings
  current : left.current = right.current
  /-- without a current pointer the latest time is not looked at -/
  lastTime : left.current = ∅ ∨ left.lastTime = right.lastTime
  strategy : left.strategy.AlikeOff ∅ right.strategy

namespace SameAhead

variable {left right : Tracker α}

theorem clear (h : left.SameAhead right) :
    left.clear.SameAhead right.clear where
  settings := h.settings
  current := rfl
  lastTime := .inl rfl
  strategy := h.strategy.clear

theorem clearSet (h : left.SameAhead right) (gone : PointerSet) :
    (left.clearSet gone).SameAhead (right.clearSet gone) where
  settings := h.settings
  current := congrArg (· \ gone) h.current
  lastTime := by
    rcases h.lastTime with hempty | htime
    · refine .inl (PointerSet.ext_of_mem fun id => ?_)
      simp [hempty]
    · exact .inr htime
  strategy := (h.strategy.clearPointers gone).mono fun _ hid =>
    (PointerSet.mem_sdiff.mp hid).1

variable [Scalar α]

/-- A pause is measured alike, since it is measured for current pointers
only. -/
theorem stoppedBy (h : left.SameAhead right) (ids : PointerSet) (time : Int) :
    left.stoppedBy ids time = right.stoppedBy ids time := by
  rw [Tracker.stoppedBy, Tracker.stoppedBy, ← h.current, ← h.settings]
  rcases h.lastTime with hempty | htime
  · have hnone : (left.current ∩ ids).isEmpty = true :=
      PointerSet.isEmpty_iff.mpr
        (PointerSet.ext_of_mem fun id => by simp [hempty])
    rw [if_pos hnone, if_pos hnone]
  · rw [htime]

theorem addMovement (h : left.SameAhead right) (m : Movement α) :
    Outcome.Alike SameAhead (left.addMovement m) (right.addMovement m) := by
  rw [addMovement_eq, addMovement_eq, h.stoppedBy]
  apply Outcome.alike_orFail _ h
  intro stopped
  have hstrategy := Strategy.alike_addMovement (h.strategy.clear_if stopped)
    (⟨rfl, rfl, fun _ _ => rfl⟩ : m.AlikeOff ∅ m)
  exact hstrategy.map fun _ _ halike => ⟨h.settings, rfl, .inr rfl, halike⟩

/-- One step is refused by both or by neither and leaves nothing to tell them
apart. -/
theorem perform_step (h : left.SameAhead right) (step : Step α) :
    Outcome.Alike SameAhead (left.perform step.call)
      (right.perform step.call) := by
  cases step with
  | add m =>
      rw [perform_add, perform_add]
      exact h.addMovement (m.lowest maxPointers)
  | clear => exact ⟨h.clear, rfl⟩
  | clearPointers gone => exact ⟨h.clearSet gone, rfl⟩

theorem perform (h : left.SameAhead right) (c : Call α) :
    Outcome.Alike SameAhead (left.perform c) (right.perform c) :=
  alike_perform_of_step (fun step _ _ _ halike => halike.perform_step step) h

theorem after (h : left.SameAhead right) (calls : List (Call α)) :
    (left.after calls).SameAhead (right.after calls) := by
  induction calls generalizing left right with
  | nil => exact h
  | cons c rest ih => exact ih (h.perform c).state

theorem estimate (h : left.SameAhead right) (id : PointerId) :
    left.estimate id = right.estimate id := by
  rw [Tracker.estimate, Tracker.estimate, Strategy.estimate_eq,
    Strategy.estimate_eq, h.strategy.sight_eq (PointerSet.not_mem_empty id)]

end SameAhead

theorem introduced_clear (t : Tracker α) : t.clear.introduced = [] := by
  have hset : t.clear.introduced = (t.setCurrent ∅).introduced := rfl
  rw [hset, setCurrent]
  simp [PointerSet.toList]

section Order

variable [Scalar α] {left right : Tracker α}

/-- Where pointers have joined in the same order, they go on doing so. -/
theorem SameAhead.introduced (h : left.SameAhead right)
    (hintroduced : left.introduced = right.introduced)
    (delivered : List (Except InputError (Step α))) :
    (left.takeAll delivered).state.introduced =
      (right.takeAll delivered).state.introduced := by
  have hset : ∀ {s t : Tracker α}, s.SameAhead t → s.introduced = t.introduced →
      ∀ ids, (s.setCurrent ids).introduced = (t.setCurrent ids).introduced := by
    intro s t halike horder ids
    rw [setCurrent, setCurrent, horder, halike.current]
  have hkept : Outcome.Alike
      (fun s t => s.SameAhead t ∧ s.introduced = t.introduced)
      (left.takeAll delivered) (right.takeAll delivered) := by
    refine alike_takeAll ?_ ⟨h, hintroduced⟩
    rintro step - s t ⟨halike, horder⟩
    have hstep := halike.perform_step step
    refine ⟨⟨hstep.state, ?_⟩, hstep.error⟩
    cases step with
    | add m =>
        rw [perform_add, perform_add, addMovement_eq, addMovement_eq,
          halike.stoppedBy]
        cases t.stoppedBy (m.lowest maxPointers).ids
          (m.lowest maxPointers).time with
        | error e => exact horder
        | ok stopped => exact hset halike horder (m.lowest maxPointers).ids
    | clear => exact hset halike horder ∅
    | clearPointers gone =>
        exact (hset halike horder (s.current \ gone)).trans
          (by rw [halike.current]; rfl)
  exact hkept.state.2

theorem SameAhead.introduced_after (h : left.SameAhead right)
    (hintroduced : left.introduced = right.introduced) (calls : List (Call α)) :
    (left.after calls).introduced = (right.after calls).introduced := by
  induction calls generalizing left right with
  | nil => exact hintroduced
  | cons c rest ih =>
      have hstep := h.introduced hintroduced c.steps
      rw [← perform_eq_takeAll, ← perform_eq_takeAll] at hstep
      exact ih (h.perform c).state hstep

end Order

section Times

variable [Scalar α]

/-- The time that a delivered step leaves as the latest, if it gets so far. -/
def timeTaken? (t : Tracker α) : Except InputError (Step α) → Option Int
  | .ok (.add m) =>
      if (t.stoppedBy (m.ids.lowest maxPointers) m.time).isOk then
        some m.time else none
  | _ => none

/-- The times that delivered steps leave as the latest, one after another until
one fails. -/
def timesTaken (t : Tracker α) : List (Except InputError (Step α)) → List Int
  | [] => []
  | d :: rest =>
      (t.timeTaken? d).toList ++
        if (t.take d).error.isNone then (t.take d).state.timesTaken rest else []

/-- The times that calls leave as the latest, one after another. -/
def latestTimes (t : Tracker α) : List (Call α) → List Int
  | [] => []
  | c :: rest => t.timesTaken c.steps ++ (t.perform c).state.latestTimes rest

theorem lastTime_take (t : Tracker α) (d : Except InputError (Step α)) :
    (t.take d).state.lastTime = (t.timeTaken? d).getD t.lastTime := by
  rcases d with e | m | _ | gone
  · rfl
  · rw [take_ok, perform_add, timeTaken?]
    rcases t.addMovement_cases (m.lowest maxPointers) with
      ⟨e, hstopped, hadd⟩ | ⟨b, hstopped⟩
    · have herror : t.stoppedBy (m.ids.lowest maxPointers) m.time = .error e :=
        hstopped
      rw [hadd, herror]
      rfl
    · have hok : t.stoppedBy (m.ids.lowest maxPointers) m.time = .ok b :=
        hstopped
      rw [addMovement_of_stoppedBy hstopped, hok]
      rfl
  · rfl
  · rfl

omit [Scalar α] in
theorem getD_getLast?_append {β : Type} (l l' : List β) (b : β) :
    (l ++ l').getLast?.getD b = l'.getLast?.getD (l.getLast?.getD b) := by
  rw [List.getLast?_append]
  cases l'.getLast? <;> rfl

theorem lastTime_takeAll (t : Tracker α)
    (delivered : List (Except InputError (Step α))) :
    (t.takeAll delivered).state.lastTime =
      (t.timesTaken delivered).getLast?.getD t.lastTime := by
  induction delivered generalizing t with
  | nil => rfl
  | cons d rest ih =>
      have htake : (t.take d).state.lastTime =
          (t.timeTaken? d).toList.getLast?.getD t.lastTime := by
        rw [t.lastTime_take d]
        cases t.timeTaken? d <;> rfl
      rw [takeAll_cons, timesTaken, getD_getLast?_append, ← htake]
      cases herror : (t.take d).error with
      | none =>
          rw [Outcome.andThen_of_error_none herror]
          exact ih _
      | some e =>
          rw [Outcome.andThen_of_error_some herror]
          rfl

/-- The latest time after some calls is the last that they left, if they left
one. -/
theorem lastTime_after (t : Tracker α) (calls : List (Call α)) :
    (t.after calls).lastTime = (t.latestTimes calls).getLast?.getD
      t.lastTime := by
  induction calls generalizing t with
  | nil => rfl
  | cons c rest ih =>
      have hfirst := t.lastTime_takeAll c.steps
      rw [← perform_eq_takeAll] at hfirst
      rw [latestTimes, getD_getLast?_append, ← hfirst]
      exact ih _

/-- Where nothing tells trackers apart, they take the same times. -/
theorem SameAhead.timesTaken {left right : Tracker α} (h : left.SameAhead right)
    (delivered : List (Except InputError (Step α))) :
    left.timesTaken delivered = right.timesTaken delivered := by
  induction delivered generalizing left right with
  | nil => rfl
  | cons d rest ih =>
      have hstep : Outcome.Alike SameAhead (left.take d) (right.take d) := by
        cases d with
        | error e => exact ⟨h, rfl⟩
        | ok step => exact h.perform_step step
      have htime : left.timeTaken? d = right.timeTaken? d := by
        rcases d with e | m | _ | gone
        · rfl
        · rw [timeTaken?, timeTaken?, h.stoppedBy]
        · rfl
        · rfl
      rw [Tracker.timesTaken, Tracker.timesTaken, htime, hstep.error,
        ih hstep.state]

theorem SameAhead.latestTimes {left right : Tracker α}
    (h : left.SameAhead right) (calls : List (Call α)) :
    left.latestTimes calls = right.latestTimes calls := by
  induction calls generalizing left right with
  | nil => rfl
  | cons c rest ih =>
      rw [Tracker.latestTimes, Tracker.latestTimes, h.timesTaken,
        ih (h.perform c).state]

end Times

section Reset

variable [Scalar α]

/-- Whether a tracker is refused each of some calls, one after another. -/
def errors (t : Tracker α) : List (Call α) → List (Option InputError)
  | [] => []
  | c :: rest => (t.perform c).error :: (t.perform c).state.errors rest

theorem SameAhead.errors {left right : Tracker α} (h : left.SameAhead right)
    (calls : List (Call α)) : left.errors calls = right.errors calls := by
  induction calls generalizing left right with
  | nil => rfl
  | cons c rest ih =>
      rw [Tracker.errors, Tracker.errors, (h.perform c).error,
        ih (h.perform c).state]

/-- Whether a movement shows a current pointer after a pause, so that every
pointer has stopped. -/
def StopsAt (t : Tracker α) : Call α → Prop
  | .add time ids points =>
      ∃ set m pause, ids.toSet? = .ok set ∧
        Movement.read? time set points = .ok m ∧
        t.settings.stoppedTime = .ok pause ∧
        (∃ id, id ∈ t.current ∧ id ∈ (m.lowest maxPointers).ids) ∧
        t.lastTime + pause ≤ m.time
  | _ => False

omit [Scalar α] in
/-- A cleared tracker is as good as a new one. -/
theorem sameAhead_clear {t fresh : Tracker α}
    (hsettings : t.settings = fresh.settings)
    (hmake : t.strategy.make = fresh.strategy.make) :
    t.clear.SameAhead fresh.clear where
  settings := hsettings
  current := rfl
  lastTime := .inl rfl
  strategy := Strategy.alike_clear_of_make hmake ∅

theorem takeAll_clear_cons (t : Tracker α)
    (rest : List (Except InputError (Step α))) :
    t.takeAll (.ok .clear :: rest) = t.clear.takeAll rest := by
  rw [takeAll_cons]
  exact Outcome.done_andThen t.clear _

/-- After a movement that stops all pointers a tracker is as good as a new
one. -/
theorem alike_of_stopsAt {t : Tracker α} {strategy : StrategyId}
    {settings : Settings α} (hsettings : t.settings = settings)
    (hmake : t.strategy.make = (ofStrategy strategy settings).strategy.make)
    {c : Call α} (hstops : t.StopsAt c) :
    Outcome.Alike SameAhead (t.perform c)
      ((ofStrategy strategy settings).perform c) := by
  cases c with
  | add time ids points =>
      obtain ⟨set, m, pause, hset, hread, hpause, hshown, hlate⟩ := hstops
      have hstopped :
          t.stoppedBy (m.lowest maxPointers).ids (m.lowest maxPointers).time =
          .ok true := by
        rw [stoppedBy_eq hpause, stops_iff.mpr ⟨hshown, hlate⟩]
      have hgoing : (ofStrategy strategy settings).stoppedBy
          (m.lowest maxPointers).ids
          (m.lowest maxPointers).time = .ok false :=
        if_pos (PointerSet.isEmpty_iff.mpr
            (PointerSet.ext_of_mem fun id => by simp [ofStrategy]))
      have hread' : ∀ u : Tracker α, u.perform (.add time ids points) =
          u.addMovement (m.lowest maxPointers) := by
        intro u
        rw [perform, add, hset]
        exact (u.addSet_eq time set points).trans (by rw [hread]; rfl)
      have hstrategy :
          t.strategy.clear.AlikeOff ∅
            (ofStrategy strategy settings).strategy := by
        have hclear := Strategy.alike_clear_of_make hmake ∅
        rwa [ofStrategy, Strategy.clear_ofPlan] at hclear
      rw [hread', hread', addMovement_of_stoppedBy hstopped,
        addMovement_of_stoppedBy hgoing]
      have hsame :
          (m.lowest maxPointers).AlikeOff ∅ (m.lowest maxPointers) :=
        ⟨rfl, rfl, fun _ _ => rfl⟩
      exact (Strategy.alike_addMovement hstrategy hsame).map fun _ _ halike =>
        ⟨hsettings, rfl, .inr rfl, halike⟩
  | clear => cases hstops
  | clearPointers gone => cases hstops
  | event e => cases hstops

/-- After a call that starts over, or a movement that stops all pointers, a
tracker answers and refuses as a new one does.  If the call starts over, the
current and the active pointers agree as well, and so does the latest time once
there is one. -/
theorem errors_and_answers_after_reset (strategy : StrategyId)
    (settings : Settings α) (calls : List (Call α)) {reset : Call α}
    (hreset : reset.startsOver = true ∨
      ((ofStrategy strategy settings).after calls).StopsAt reset)
    (later : List (Call α)) :
    let fresh := ofStrategy strategy settings
    let t := fresh.after calls
    let left := t.after (reset :: later)
    let right := fresh.after (reset :: later)
    t.errors (reset :: later) = fresh.errors (reset :: later) ∧
      (∀ n, left.estimateOf? n = right.estimateOf? n) ∧
      (∀ id, left.answer id = right.answer id ∧
      left.velocity id = right.velocity id) ∧
      (reset.startsOver = true →
        left.current = right.current ∧ left.active? = right.active? ∧
          t.latestTimes (reset :: later) = fresh.latestTimes (reset :: later) ∧
          (fresh.latestTimes (reset :: later) ≠ [] →
          left.lastTime = right.lastTime)) := by
  intro fresh t left right
  obtain ⟨hsettings, hmake⟩ := fresh.make_after calls
  have hclear : t.clear.SameAhead fresh.clear := sameAhead_clear hsettings hmake
  have hfirst : Outcome.Alike SameAhead (t.perform reset)
      (fresh.perform reset) := by
    rcases hreset with hstart | hstops
    · obtain ⟨rest, hsteps⟩ := Call.steps_of_startsOver hstart
      rw [perform_eq_takeAll, perform_eq_takeAll, hsteps, takeAll_clear_cons,
        takeAll_clear_cons]
      exact alike_takeAll
        (fun step _ _ _ halike => halike.perform_step step) hclear
    · exact alike_of_stopsAt hsettings hmake hstops
  have hend : left.SameAhead right := hfirst.state.after later
  have hestimate : ∀ id, left.estimate id = right.estimate id := hend.estimate
  refine ⟨?_, ?_, ?_, ?_⟩
  · rw [errors, errors, hfirst.error, hfirst.state.errors]
  · intro n
    rw [estimateOf?, estimateOf?, funext hestimate]
  · intro id
    rw [answer, answer, velocity, velocity, hestimate]
    exact ⟨rfl, rfl⟩
  · intro hstart
    obtain ⟨rest, hsteps⟩ := Call.steps_of_startsOver hstart
    have htimes : t.latestTimes (reset :: later) =
        fresh.latestTimes (reset :: later) := by
      rw [latestTimes, latestTimes, hfirst.state.latestTimes, hsteps]
      exact congrArg (· ++ _) (hclear.timesTaken rest)
    refine ⟨hend.current, ?_, htimes, ?_⟩
    · have horder :=
        hclear.introduced
          (t.introduced_clear.trans fresh.introduced_clear.symm) rest
      rw [← takeAll_clear_cons, ← takeAll_clear_cons, ← hsteps,
        ← perform_eq_takeAll, ← perform_eq_takeAll] at horder
      exact congrArg List.getLast? (hfirst.state.introduced_after horder later)
    · intro hsome
      have hleft := t.lastTime_after (reset :: later)
      have hright := fresh.lastTime_after (reset :: later)
      rw [htimes, List.getLast?_eq_some_getLast hsome] at hleft
      rw [List.getLast?_eq_some_getLast hsome] at hright
      exact hleft.trans hright.symm

/-- A run of the filter that goes on after a pause, with a movement that is
refused half way. -/
def pausedRun : List (Call Float) :=
  [.add (.whole 90000000) (.known (.ofList [1, 5])) [.ofPosition ⟨3.0, 4.0⟩,
    .ofPosition ⟨8.0, 8.0⟩],
    .add (.whole 9223372036854775808) (.known (.ofList [1, 2]))
      [.ofPosition ⟨1.0, 2.0⟩, .ofPosition ⟨2.0, 1.0⟩],
    .add (.whole 100000000) (.known {5}) [.ofPosition ⟨9.0, 4.0⟩]]

/-- A gesture that starts with pointer 5. -/
def downEvent : MotionEvent Float :=
  { action := .down
    ids := [5]
    history := []
    final := ⟨.whole 80000000, [.ofPosition ⟨6.0, 7.0⟩]⟩
    actionIndex := 0 }

theorem errors_and_answers_after_pausedRun :
    let fresh := ofStrategy .int2 Settings.standard
    let t := fresh.after (tellingRun ⟨7.0, 3.0⟩)
    (t.after (.event downEvent :: pausedRun)).lastTime =
        (fresh.after (.event downEvent :: pausedRun)).lastTime ∧
      ∀ n, (t.after pausedRun).estimateOf? n =
        (fresh.after pausedRun).estimateOf? n := by
  intro fresh t
  have hdown := errors_and_answers_after_reset .int2 Settings.standard
    (tellingRun ⟨7.0, 3.0⟩)
    (.inl (by decide : (Call.event downEvent).startsOver = true)) pausedRun
  have hsettings : t.settings = Settings.standard := (fresh.make_after _).1
  have hpause : t.settings.stoppedTime = .ok 40000000 := by
    rw [hsettings]
    rfl
  have hstops : t.StopsAt (pausedRun.head (by decide)) :=
    ⟨.ofList [1, 5],
      ⟨90000000, .ofList [1, 5], [⟨3.0, 4.0⟩, ⟨8.0, 8.0⟩], by decide⟩,
      40000000, rfl,
      by rfl, hpause, ⟨5, by decide +kernel, by decide +kernel⟩, by
      decide +kernel⟩
  have hstop := errors_and_answers_after_reset .int2 Settings.standard
    (tellingRun ⟨7.0, 3.0⟩)
    (.inr hstops) pausedRun.tail
  exact ⟨(hdown.2.2.2 (by decide)).2.2.2 (by decide +kernel), hstop.2.1⟩

end Reset

end Tracker

end PointerMotion
