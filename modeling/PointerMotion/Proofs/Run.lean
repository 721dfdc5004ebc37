/-
Operations as data, and runs of them.  A call has whatever arguments a caller
gives; a step is one whose arguments fit together.
-/
import PointerMotion.Event
import PointerMotion.Proofs.Acceptance

namespace PointerMotion

variable {α : Type}

/-- An operation with a caller's arguments. -/
inductive Call (α : Type) where
  | add (time : Reading α) (ids : PointerChoice) (points : List (Point α))
  | clear
  | clearPointers (gone : PointerChoice)
  | event (e : MotionEvent α)

/-- An operation whose arguments fit together. -/
inductive Step (α : Type) where
  | add (m : Movement α)
  | clear
  | clearPointers (gone : PointerSet)

namespace Step

/-- The call that delivers a step. -/
def call : Step α → Call α
  | add m =>
      .add (.whole m.time) (.known m.ids) (m.positions.map Point.ofPosition)
  | clear => .clear
  | clearPointers gone => .clearPointers (.known gone)

def time? : Step α → Option Int
  | add m => some m.time
  | _ => none

/-- The times of the movements that are added, one after another. -/
def times (steps : List (Step α)) : List Int :=
  steps.filterMap time?

theorem times_sublist_cons (step : Step α) (rest : List (Step α)) :
    (times rest).Sublist (times (step :: rest)) :=
  (List.sublist_cons_self step rest).filterMap time?

theorem mem_times {m : Movement α} {steps : List (Step α)}
    (h : .add m ∈ steps) :
    m.time ∈ times steps :=
  List.mem_filterMap.mpr ⟨.add m, h, rfl⟩

end Step

namespace Movement

def lowest (count : Nat) (m : Movement α) : Movement α :=
  { time := m.time
    ids := m.ids.lowest count
    positions := m.positions.take count
    sized := by rw [List.length_take, m.sized, PointerSet.card_lowest] }

theorem lowest_of_card_le {count : Nat} {m : Movement α}
    (h : m.ids.card ≤ count) :
    m.lowest count = m := by
  rcases m with ⟨time, ids, positions, hsized⟩
  simp only [lowest, PointerSet.lowest_of_card_le h,
    List.take_of_length_le (hsized ▸ h)]

end Movement

section Reading

variable [Scalar α]

namespace Point

theorem mapM_toPosition_ofPosition (positions : List (Position α)) :
    (positions.map Point.ofPosition).mapM toPosition = .ok positions := by
  induction positions with
  | nil => rfl
  | cons p rest ih =>
      rw [List.map_cons, List.mapM_cons, toPosition_ofPosition, ih]
      rfl

theorem mapM_toPosition_cons (point : Point α) (points : List (Point α)) :
    (point :: points).mapM toPosition =
      point.toPosition.bind fun p => (points.mapM toPosition).map (p :: ·) := by
  rw [List.mapM_cons]
  cases point.toPosition with
  | error e => rfl
  | ok p => cases points.mapM toPosition <;> rfl

theorem mapM_toPosition_cons_eq_ok {point : Point α} {points : List (Point α)}
    {positions : List (Position α)}
    (h : (point :: points).mapM toPosition = .ok positions) :
    ∃ p rest, positions = p :: rest ∧ point.toPosition = .ok p ∧
      points.mapM toPosition = .ok rest := by
  rw [mapM_toPosition_cons] at h
  cases hpoint : point.toPosition with
  | error e => simp [hpoint, Except.bind] at h
  | ok p =>
      cases hrest : points.mapM toPosition with
      | error e => simp [hpoint, hrest, Except.bind, Except.map] at h
      | ok rest =>
          simp only [hpoint, hrest, Except.bind, Except.map,
            Except.ok.injEq] at h
          exact ⟨p, rest, h.symm, rfl, rfl⟩

theorem length_of_mapM_toPosition {points : List (Point α)}
    {positions : List (Position α)}
    (h : points.mapM toPosition = .ok positions) :
    positions.length = points.length := by
  induction points generalizing positions with
  | nil =>
      cases h
      rfl
  | cons point rest ih =>
      rcases mapM_toPosition_cons_eq_ok h with ⟨p, tail, rfl, _, htail⟩
      rw [List.length_cons, List.length_cons, ih htail]

end Point

namespace Movement

/-- The movement of positions delivered to a tracker.  The count is checked
first, then the positions are read, then the time. -/
def read? (time : Reading α) (ids : PointerSet) (points : List (Point α)) :
    Except InputError (Movement α) :=
  if points.length = ids.card then
    match points.mapM Point.toPosition with
    | .error e => .error e
    | .ok positions =>
        match time.toInt with
        | .error e => .error e
        | .ok time =>
            if h : positions.length = ids.card then
              .ok ⟨time, ids, positions, h⟩
            else .error (.positionCount ids positions.length)
  else .error (.positionCount ids points.length)

@[simp] theorem read?_delivered (m : Movement α) :
    read? (.whole m.time) m.ids (m.positions.map Point.ofPosition) = .ok m := by
  rw [read?, if_pos (by rw [List.length_map, m.sized]),
    Point.mapM_toPosition_ofPosition]
  simp [Reading.toInt, m.sized]

@[simp] theorem make?_delivered (m : Movement α) :
    make? (.whole m.time) m.ids (m.positions.map Point.ofPosition) = .ok m := by
  rw [make?, if_pos (by rw [List.length_map, m.sized]),
    Point.mapM_toPosition_ofPosition]
  simp [Reading.toInt, m.sized, bind, Except.bind, pure, Except.pure]

theorem read?_eq_ok_iff {time : Reading α} {ids : PointerSet}
    {points : List (Point α)} {m : Movement α} :
    read? time ids points = .ok m ↔
      time.toInt = .ok m.time ∧ ids = m.ids ∧
      points.mapM Point.toPosition = .ok m.positions := by
  rcases m with ⟨now, set, positions, hsized⟩
  constructor
  · intro h
    rw [read?] at h
    split at h
    · cases hpoints : points.mapM Point.toPosition with
      | error e => simp [hpoints] at h
      | ok read =>
          cases htime : time.toInt with
          | error e => simp [hpoints, htime] at h
          | ok now' =>
              simp only [hpoints, htime] at h
              split at h
              · cases h
                exact ⟨rfl, rfl, rfl⟩
              · cases h
    · cases h
  · rintro ⟨htime, rfl, hpoints⟩
    have hcount : points.length = ids.card := by
      rw [← Point.length_of_mapM_toPosition hpoints, hsized]
    simp only [read?, if_pos hcount, htime, hpoints, dif_pos hsized]

theorem make?_eq_ok_iff {time : Reading α} {ids : PointerSet}
    {points : List (Point α)} {m : Movement α} :
    make? time ids points = .ok m ↔
      time.toInt = .ok m.time ∧ ids = m.ids ∧
      points.mapM Point.toPosition = .ok m.positions := by
  constructor
  · intro h
    rw [make?] at h
    split at h
    · cases htime : time.toInt with
      | error e => simp [htime, bind, Except.bind] at h
      | ok now =>
          cases hpoints : points.mapM Point.toPosition with
          | error e => simp [htime, hpoints, bind, Except.bind] at h
          | ok positions =>
              simp only [htime, hpoints, bind, Except.bind] at h
              split at h
              · cases h
                exact ⟨rfl, rfl, rfl⟩
              · cases h
    · cases h
  · rintro ⟨htime, rfl, hpoints⟩
    have hcount : points.length = m.ids.card := by
      rw [← Point.length_of_mapM_toPosition hpoints, m.sized]
    simp only [make?, if_pos hcount, htime, hpoints, bind, Except.bind,
      dif_pos m.sized]
    rfl

end Movement

end Reading

/-- Samples that can be read are accepted as though they had been read
before. -/
theorem Filter.acceptAll_eq_acceptSamples [Scalar α] (order : Filter.Order)
    {time : Reading α} {now : Int} (htime : time.toInt = .ok now)
    {ids : List PointerId} {points : List (Point α)}
    {positions : List (Position α)}
    (hpoints : points.mapM Point.toPosition = .ok positions)
    (table : Filter.Table α) :
    Filter.acceptAll order time (ids.zip points) table =
      Filter.acceptSamples order now (ids.zip positions) table := by
  induction ids generalizing points positions table with
  | nil => rfl
  | cons id rest ih =>
      cases points with
      | nil =>
          cases hpoints
          rfl
      | cons point more =>
          rcases Point.mapM_toPosition_cons_eq_ok hpoints with
            ⟨p, tail, rfl, hpoint, hmore⟩
          rw [List.zip_cons_cons, List.zip_cons_cons, acceptAll,
            acceptSamples_cons, htime, hpoint]
          exact congrArg (Outcome.andThen _)
            (funext fun table => ih hmore table)

namespace Strategy

variable [Scalar α]

def addMovement (s : Strategy α) (m : Movement α) : Outcome (Strategy α) :=
  s.add (.whole m.time) m.ids (m.positions.map Point.ofPosition)

theorem addMovement_ofTrack (plan : TrackPlan) (h : History α)
    (m : Movement α) :
    (ofTrack plan h).addMovement m = (record plan h m).map (ofTrack plan) := by
  rw [addMovement, add, Movement.make?_delivered]
  rfl

theorem addMovement_filter (order : Filter.Order) (table : Filter.Table α)
    (m : Movement α) :
    (filter order table).addMovement m =
      (Filter.addMovement order m table).map (filter order) :=
  rfl

def perform (s : Strategy α) : Step α → Outcome (Strategy α)
  | .add m => s.addMovement m
  | .clear => .done s.clear
  | .clearPointers gone => .done (s.clearPointers gone)

def run (s : Strategy α) (steps : List (Step α)) : Strategy α :=
  steps.foldl (fun s step => (s.perform step).state) s

end Strategy

namespace Tracker

section Clearing

variable (t : Tracker α) (gone : PointerSet)

@[simp] theorem strategy_clear : t.clear.strategy = t.strategy.clear :=
  rfl

@[simp] theorem current_clear : t.clear.current = ∅ :=
  rfl

@[simp] theorem strategy_clearSet :
    (t.clearSet gone).strategy = t.strategy.clearPointers gone :=
  rfl

@[simp] theorem current_clearSet :
    (t.clearSet gone).current = t.current \ gone :=
  rfl

theorem clearPointers_of_toSet? {t : Tracker α} {gone : PointerChoice}
    {set : PointerSet} (h : gone.toSet? = .ok set) :
    t.clearPointers gone = .done (t.clearSet set) := by
  rw [clearPointers, h]
  rfl

end Clearing

variable [Scalar α]

/-- The answer about a pointer: whether anything is known, and the estimate or a
cleared one. -/
def answer (t : Tracker α) (id : PointerId) : Bool × Estimator α :=
  ((t.estimate id).isSome, (t.estimate id).getD .cleared)

def perform (t : Tracker α) : Call α → Outcome (Tracker α)
  | .add time ids points => t.add time ids points
  | .clear => .done t.clear
  | .clearPointers gone => t.clearPointers gone
  | .event e => t.addEvent e

/-- The tracker after some calls; a call that fails leaves what it has
changed. -/
def after (t : Tracker α) (calls : List (Call α)) : Tracker α :=
  calls.foldl (fun t c => (t.perform c).state) t

def run (t : Tracker α) (steps : List (Step α)) : Tracker α :=
  t.after (steps.map Step.call)

@[simp] theorem after_nil (t : Tracker α) : t.after [] = t :=
  rfl

theorem after_append (t : Tracker α) (calls later : List (Call α)) :
    t.after (calls ++ later) = (t.after calls).after later :=
  List.foldl_append

@[simp] theorem run_nil (t : Tracker α) : t.run [] = t :=
  rfl

theorem run_append (t : Tracker α) (steps later : List (Step α)) :
    t.run (steps ++ later) = (t.run steps).run later := by
  rw [run, List.map_append, after_append]
  rfl

theorem run_cons (t : Tracker α) (step : Step α) (later : List (Step α)) :
    t.run (step :: later) = ((t.perform step.call).state).run later :=
  rfl

def Succeeds (t : Tracker α) : List (Step α) → Prop
  | [] => True
  | step :: rest =>
      (t.perform step.call).error = none ∧
        (t.perform step.call).state.Succeeds rest

instance decidableSucceeds (t : Tracker α) :
    (steps : List (Step α)) → Decidable (t.Succeeds steps)
  | [] => inferInstanceAs (Decidable True)
  | step :: rest =>
      have := decidableSucceeds (t.perform step.call).state rest
      inferInstanceAs (Decidable (_ ∧ _))

theorem succeeds_append (t : Tracker α) (steps later : List (Step α)) :
    t.Succeeds (steps ++ later) ↔ t.Succeeds steps ∧
      (t.run steps).Succeeds later := by
  induction steps generalizing t with
  | nil => exact ⟨fun h => ⟨trivial, h⟩, And.right⟩
  | cons step rest ih =>
      rw [List.cons_append, Succeeds, Succeeds, ih, run_cons, and_assoc]

def addMovement (t : Tracker α) (m : Movement α) : Outcome (Tracker α) :=
  t.addRead m.time m.ids m.positions

theorem addMovement_eq (t : Tracker α) (m : Movement α) :
    t.addMovement m =
      Outcome.orFail ((t.stoppedBy m.ids m.time).mapError .conversion) t
        fun stopped =>
          ((if stopped then t.strategy.clear else t.strategy).addMovement m).map
            fun strategy =>
              { t.setCurrent m.ids with
                lastTime := m.time, strategy := strategy } :=
  rfl

/-- Positions that a tracker cannot read change nothing; others make a
movement. -/
theorem addSet_eq (t : Tracker α) (time : Reading α) (ids : PointerSet)
    (points : List (Point α)) :
    t.addSet time ids points =
      Outcome.orFail (Movement.read? time ids points) t fun m =>
        t.addMovement (m.lowest maxPointers) := by
  rw [addSet, Movement.read?]
  split
  next hcount =>
    cases hpositions : points.mapM Point.toPosition with
    | error e => rfl
    | ok positions =>
        have hlength := Point.length_of_mapM_toPosition hpositions
        cases time.toInt with
        | error e => rfl
        | ok time =>
            simp only [dif_pos (hlength.trans hcount)]
            rfl
  next => rfl

@[simp] theorem perform_clear (t : Tracker α) :
    t.perform (Step.clear : Step α).call = .done t.clear :=
  rfl

@[simp] theorem perform_clearPointers (t : Tracker α) (gone : PointerSet) :
    t.perform (Step.clearPointers gone : Step α).call =
      .done (t.clearSet gone) :=
  rfl

theorem perform_add (t : Tracker α) (m : Movement α) :
    t.perform (Step.add m).call = t.addMovement (m.lowest maxPointers) := by
  change t.addSet (.whole m.time) m.ids (m.positions.map Point.ofPosition) = _
  rw [addSet_eq, Movement.read?_delivered]
  rfl

end Tracker

section Runs

/-- A run in which pointer 5 comes along with pointer 1, leaves, and comes
back. -/
def crowdedRun : List (Step Float) :=
  [.add ⟨0, .ofList [1, 5], [⟨0.0, 0.0⟩, ⟨7.0, 3.0⟩], by decide⟩,
    .clearPointers {5},
    .add ⟨10000000, .ofList [1, 5], [⟨1.0, 2.0⟩, ⟨9.0, 4.0⟩], by decide⟩,
    .add ⟨20000000, {1}, [⟨3.0, 4.0⟩], by decide⟩]

/-- A run that says the same of pointer 1 and in which others come and go. -/
def otherwiseCrowdedRun : List (Step Float) :=
  [.add ⟨0, .ofList [0, 1], [⟨5.0, 5.0⟩, ⟨0.0, 0.0⟩], by decide⟩,
    .add ⟨10000000, {1}, [⟨1.0, 2.0⟩], by decide⟩,
    .add ⟨20000000, .ofList [1, 9], [⟨3.0, 4.0⟩, ⟨8.0, 8.0⟩], by decide⟩,
    .clearPointers {9}]

/-- A run in which pointer 0 alone sets off the stop rule when pointer 1 comes
back. -/
def interruptedRun : List (Step Float) :=
  [.add ⟨0, .ofList [0, 1], [⟨7.0, 3.0⟩, ⟨0.0, 0.0⟩], by decide⟩,
    .add ⟨20000000, {0}, [⟨9.0, 4.0⟩], by decide⟩,
    .clearPointers {3},
    .add ⟨70000000, .ofList [0, 1], [⟨5.0, 5.0⟩, ⟨1.0, 2.0⟩], by decide⟩,
    .add ⟨80000000, .ofList [1, 2], [⟨3.0, 4.0⟩, ⟨8.0, 8.0⟩], by decide⟩]

/-- A run in which pointer 1 leaves, comes back and stays. -/
def returningRun : List (Step Float) :=
  [.add ⟨0, {1}, [⟨0.0, 0.0⟩], by decide⟩,
    .add ⟨10000000, {2}, [⟨9.0, 4.0⟩], by decide⟩,
    .add ⟨20000000, .ofList [1, 2], [⟨1.0, 2.0⟩, ⟨8.0, 8.0⟩], by decide⟩,
    .clearPointers {2},
    .add ⟨30000000, {1}, [⟨3.0, 4.0⟩], by decide⟩]

/-- A run in which pointer 1 moves as in `returningRun`, with the coordinates
exchanged. -/
def exchangedRun : List (Step Float) :=
  [.add ⟨0, {1}, [⟨0.0, 0.0⟩], by decide⟩,
    .add ⟨10000000, {2}, [⟨7.0, 4.0⟩], by decide⟩,
    .add ⟨20000000, .ofList [1, 2], [⟨2.0, 1.0⟩, ⟨5.0, 8.0⟩], by decide⟩,
    .clearPointers {2},
    .add ⟨30000000, {1}, [⟨4.0, 3.0⟩], by decide⟩]

/-- Pointer 1 leaves, and pointer 2 tells of it. -/
def leavingRun : List (Step Float) :=
  [.add ⟨0, {1}, [⟨0.0, 0.0⟩], by decide⟩,
    .add ⟨10000000, {2}, [⟨9.0, 4.0⟩], by decide⟩]

/-- Pointer 1 goes on where `leavingRun` ends, first with a sample of the same
time. -/
def resumedRun : List (Step Float) :=
  [.add ⟨10000000, {1}, [⟨1.0, 2.0⟩], by decide⟩,
    .add ⟨45000000, {1}, [⟨3.0, 4.0⟩], by decide⟩,
    .add ⟨80000000, .ofList [1, 2], [⟨5.0, 5.0⟩, ⟨8.0, 8.0⟩], by decide⟩,
    .clearPointers {2}, .add ⟨118000000, {1}, [⟨6.0, 7.0⟩], by decide⟩]

/-- Pointer 1 comes back at the time at which it was told to be absent. -/
def bridgingMovement : Movement Float :=
  ⟨10000000, {1}, [⟨1.0, 2.0⟩], by decide⟩

/-- A run that tells where pointer 5 is; a time that no word holds is
refused. -/
def tellingRun (secret : Position Float) : List (Call Float) :=
  [.add (.whole 0) (.known (.ofList [1, 5])) [.ofPosition ⟨0.0, 0.0⟩,
    .ofPosition secret],
    .add (.whole 9223372036854775808) (.known (.ofList [1, 5]))
      [.ofPosition ⟨1.0, 2.0⟩, .ofPosition secret],
    .add (.whole 10000000) (.known (.ofList [1, 5]))
      [.ofPosition ⟨1.0, 2.0⟩, .ofPosition secret]]

/-- A run in which pointer 5 comes back. -/
def comebackRun : List (Call Float) :=
  [.add (.whole 20000000) (.known (.ofList [1, 5]))
    [.ofPosition ⟨3.0, 4.0⟩, .ofPosition ⟨6.0, 7.0⟩]]

end Runs

end PointerMotion
