/-
A tracker stays where its operations are defined: readings, word times and the
horizon bound all that its divisions are given.
-/
import PointerMotion.Proofs.Failure
import PointerMotion.Proofs.Undefined

namespace PointerMotion

namespace Filter

/-- Whether every row keeps a time that a word holds. -/
def Table.Timed {α : Type} (table : Table α) : Prop :=
  ∀ id, fitsWord (table.rows.get id).time = true

section Timed

variable {α : Type} {table : Table α}

theorem Table.Timed.put (h : table.Timed) (id : PointerId) {m : Motion α}
    (hm : fitsWord m.time = true) : (table.put id m).Timed := by
  intro other
  rw [Table.get_rows_put]
  split
  · exact hm
  · exact h other

variable [Scalar α]

theorem Table.timed_empty : (Table.empty : Table α).Timed := by
  intro id
  have hrow : (Table.empty : Table α).rows.get id = .resting 0 ⟨0.0, 0.0⟩ :=
    Vector.getElem_replicate _
  rw [hrow]
  rfl

theorem Table.Timed.begin (h : table.Timed) (id : PointerId) (time : Int)
    (p : Position α) :
    (begin id time p table).state.Timed := by
  rw [Filter.begin]
  split
  next hword => exact h.put id hword
  · exact h.put id (h id)

/-- A sample leaves only times that words hold, whether or not it is refused. -/
theorem Table.Timed.accept (h : table.Timed) (order : Order) (id : PointerId)
    (time : Int) (p : Position α) :
    (accept order id time p table).state.Timed := by
  rw [Filter.accept]
  split
  · exact h.begin id time p
  · split
    · exact h.begin id time p
    · split
      · exact h
      · split
        next hword => exact h.put id hword
        · exact h

theorem Table.Timed.acceptSamples (h : table.Timed) (order : Order) (time : Int)
    (samples : List (PointerId × Position α)) :
    (acceptSamples order time samples table).state.Timed := by
  induction samples generalizing table with
  | nil => exact h
  | cons s rest ih =>
      have haccept := h.accept order s.1 time s.2
      rw [acceptSamples_cons]
      cases herror : (Filter.accept order s.1 time s.2 table).error with
      | none =>
          rw [Outcome.andThen_of_error_none herror]
          exact ih haccept
      | some e =>
          rw [Outcome.andThen_of_error_some herror]
          exact haccept

theorem Table.Timed.addMovement (h : table.Timed) (order : Order)
    (m : Movement α) :
    (addMovement order m table).state.Timed := by
  have hsamples := h.acceptSamples order m.time m.samples
  rw [addMovement_eq]
  dsimp only
  split
  · exact hsamples
  · exact hsamples

end Timed

variable (o : Outside) {table : Table Float}

/-- The time between an accepted sample and a later one that a word holds is a
double. -/
theorem holdsInt_sub {time time' : Int} (h : fitsWord time = true)
    (h' : fitsWord time' = true) :
    Binary.holdsInt (time - time') = true := by
  have hmin : Int64.minValue.toInt = -9223372036854775808 := rfl
  have hmax : Int64.maxValue.toInt = 9223372036854775807 := rfl
  simp only [fitsWord, hmin, hmax, Bool.and_eq_true, decide_eq_true_eq] at h h'
  exact Double.holdsInt_of_natAbs_le (by omega)

theorem accept_outside (h : table.Timed) (order : Order) (id : PointerId)
    (time : Int) (p : Position Float) :
    @accept Float o.scalar order id time p table =
      accept order id time p table := by
  unfold accept
  split
  · rfl
  next m hm =>
    split
    · rfl
    · split
      · rfl
      next hlate =>
        split
        next hword =>
          have hrow : table.rows.get id = m :=
            (Table.motion?_eq_some_iff.mp hm).2
          have htime : fitsWord m.time = true := hrow ▸ h id
          have hpos : 0 < time - m.time :=
            Int.lt_of_lt_of_le (by decide) (Int.not_lt.mp hlate)
          rw [Motion.advance_outside o order p hpos (holdsInt_sub hword htime)]
        · rfl

theorem acceptSamples_outside (h : table.Timed) (order : Order) (time : Int)
    (samples : List (PointerId × Position Float)) :
    @acceptSamples Float o.scalar order time samples table =
      acceptSamples order time samples table := by
  induction samples generalizing table with
  | nil => rfl
  | cons s rest ih =>
      have hrest := ih (h.accept order s.1 time s.2)
      rw [@acceptSamples_cons Float o.scalar, acceptSamples_cons,
        accept_outside o h, Outcome.andThen, Outcome.andThen, hrest]

theorem addMovement_outside (h : table.Timed) (order : Order)
    (m : Movement Float) :
    @addMovement Float o.scalar order m table = addMovement order m table := by
  rw [@addMovement_eq Float o.scalar, addMovement_eq, acceptSamples_outside o h]

end Filter

section Readings

variable (o : Outside)

theorem Scalar.ofInt?_outside (n : Int) :
    @ofInt? Float o.scalar n = ofInt? n := by
  unfold ofInt?
  by_cases hheld : Binary.holdsInt n = true
  · rw [o.ofInt_eq hheld]
    rfl
  · exact (if_neg hheld).trans (if_neg hheld).symm

theorem Reading.toScalar_outside (r : Reading Float) :
    @toScalar Float o.scalar r = r.toScalar := by
  cases r with
  | scalar a => rfl
  | whole n =>
      exact congrArg (Except.mapError InputError.conversion)
        (Scalar.ofInt?_outside o n)

theorem Point.toPosition_outside : @toPosition Float o.scalar = toPosition := by
  funext point
  unfold toPosition
  simp only [Reading.toScalar_outside]

theorem Movement.read?_outside (time : Reading Float) (ids : PointerSet)
    (points : List (Point Float)) :
    @read? Float o.scalar time ids points = read? time ids points := by
  unfold read?
  rw [Point.toPosition_outside]
  rfl

theorem Step.ofSample_outside : @ofSample Float o.scalar = ofSample := by
  funext s
  unfold ofSample
  rw [Movement.read?_outside]

theorem MotionEvent.sampleSteps_outside (e : MotionEvent Float) :
    @sampleSteps Float o.scalar e = e.sampleSteps := by
  unfold sampleSteps
  rw [Step.ofSample_outside]
  rfl

theorem MotionEvent.steps_outside (e : MotionEvent Float) :
    @steps Float o.scalar e = e.steps := by
  unfold steps
  rw [sampleSteps_outside]

theorem Call.steps_outside (c : Call Float) :
    @steps Float o.scalar c = c.steps := by
  cases c with
  | add time ids points =>
      unfold steps
      rw [Step.ofSample_outside]
  | clear => rfl
  | clearPointers gone => rfl
  | event e => exact MotionEvent.steps_outside o e

end Readings

namespace Strategy

/-- Whether the times in the rows of a filter are such that words hold them. -/
def Timed {α : Type} : Strategy α → Prop
  | ofTrack _ _ => True
  | filter _ table => table.Timed

section Timed

variable {α : Type} {s : Strategy α}

theorem Timed.clear (h : s.Timed) : s.clear.Timed := by
  cases s with
  | ofTrack plan history => trivial
  | filter order table => exact h

theorem Timed.clearPointers (h : s.Timed) (gone : PointerSet) :
    (s.clearPointers gone).Timed := by
  cases s with
  | ofTrack plan history => trivial
  | filter order table => exact h

variable [Scalar α]

theorem timed_ofPlan (plan : Plan) : (ofPlan plan : Strategy α).Timed := by
  cases plan with
  | ofTrack plan => trivial
  | filter order => exact Filter.Table.timed_empty

theorem Timed.addMovement (h : s.Timed) (m : Movement α) :
    (s.addMovement m).state.Timed := by
  cases s with
  | ofTrack plan history =>
      rw [addMovement_ofTrack]
      trivial
  | filter order table => exact Filter.Table.Timed.addMovement h order m

end Timed

theorem addMovement_outside (o : Outside) {s : Strategy Float} (h : s.Timed)
    (m : Movement Float) :
    @addMovement Float o.scalar s m = s.addMovement m := by
  cases s with
  | ofTrack plan history =>
      rw [@addMovement_ofTrack Float o.scalar, addMovement_ofTrack]
  | filter order table =>
      rw [@addMovement_filter Float o.scalar, addMovement_filter,
        Filter.addMovement_outside o h]

end Strategy

namespace Tracker

theorem timed_perform {α : Type} [Scalar α] {t : Tracker α}
    (h : t.strategy.Timed) (step : Step α) :
    (t.perform step.call).state.strategy.Timed := by
  cases step with
  | clear => exact h.clear
  | clearPointers gone => exact h.clearPointers gone
  | add m =>
      rw [perform_add]
      rcases t.addMovement_cases (m.lowest maxPointers) with ⟨e, -, hadd⟩ |
        ⟨stopped, hstopped⟩
      · rw [hadd]
        exact h
      · rw [addMovement_of_stoppedBy hstopped]
        apply Strategy.Timed.addMovement
        split
        · exact h.clear
        · exact h

variable (o : Outside)

theorem addMovement_outside {t : Tracker Float} (h : t.strategy.Timed)
    (m : Movement Float) :
    @addMovement Float o.scalar t m = t.addMovement m := by
  have hadd : ∀ stopped : Bool, @Strategy.addMovement Float o.scalar
      (if stopped then t.strategy.clear else t.strategy) m =
        (if stopped then t.strategy.clear else t.strategy).addMovement m := by
    intro stopped
    apply Strategy.addMovement_outside o
    split
    · exact h.clear
    · exact h
  have hstopped : ∀ ids time, @stoppedBy Float o.scalar t ids time =
      t.stoppedBy ids time :=
    fun ids time => rfl
  rw [@addMovement_eq Float o.scalar, addMovement_eq, hstopped]
  simp only [hadd]

theorem perform_step_outside {t : Tracker Float} (h : t.strategy.Timed)
    (step : Step Float) :
    @perform Float o.scalar t step.call = t.perform step.call := by
  cases step with
  | add m =>
      rw [@perform_add Float o.scalar, perform_add, addMovement_outside o h]
  | clear => rfl
  | clearPointers gone => rfl

theorem takeAll_outside {t : Tracker Float} (h : t.strategy.Timed)
    (delivered : List (Except InputError (Step Float))) :
    @takeAll Float o.scalar delivered t = t.takeAll delivered := by
  induction delivered generalizing t with
  | nil =>
      have hleft : @takeAll Float o.scalar [] t = .done t := rfl
      have hright : t.takeAll [] = .done t := rfl
      rw [hleft, hright]
  | cons d rest ih =>
      rw [@takeAll_cons Float o.scalar, takeAll_cons]
      cases d with
      | error e =>
          rw [@take_error Float o.scalar, take_error,
            Outcome.andThen_of_error_some rfl,
            Outcome.andThen_of_error_some rfl]
      | ok step =>
          rw [@take_ok Float o.scalar, take_ok, perform_step_outside o h,
            Outcome.andThen, Outcome.andThen, ih (timed_perform h step)]

theorem perform_outside {t : Tracker Float} (h : t.strategy.Timed)
    (c : Call Float) :
    @perform Float o.scalar t c = t.perform c := by
  rw [@perform_eq_takeAll Float o.scalar, perform_eq_takeAll,
    Call.steps_outside, takeAll_outside o h]

theorem timed_ofStrategy {α : Type} [Scalar α] (strategy : StrategyId)
    (settings : Settings α) :
    (ofStrategy strategy settings).strategy.Timed :=
  Strategy.timed_ofPlan strategy.plan

theorem timed_after {α : Type} [Scalar α] {t : Tracker α} (h : t.strategy.Timed)
    (calls : List (Call α)) : (t.after calls).strategy.Timed := by
  apply after_induction (P := fun u => u.strategy.Timed) _ h
  rintro c - step - u hu
  exact timed_perform hu step

theorem timed_perform_call {α : Type} [Scalar α] {t : Tracker α}
    (h : t.strategy.Timed) (c : Call α) : (t.perform c).state.strategy.Timed :=
  timed_after h [c]

/-- A run is the same whatever undefined operations would give. -/
theorem after_outside {t : Tracker Float} (h : t.strategy.Timed)
    (calls : List (Call Float)) :
    @after Float o.scalar t calls = t.after calls := by
  induction calls generalizing t with
  | nil => rw [@after_nil Float o.scalar, after_nil]
  | cons c rest ih =>
      have hrest := ih (timed_perform_call h c)
      unfold after at hrest ⊢
      rw [List.foldl_cons, List.foldl_cons, perform_outside o h, hrest]

theorem after_ofStrategy_outside (strategy : StrategyId)
    (settings : Settings Float) (calls : List (Call Float)) :
    @after Float o.scalar (@ofStrategy Float o.scalar strategy settings) calls =
      (ofStrategy strategy settings).after calls :=
  after_outside o (timed_ofStrategy strategy settings) calls

end Tracker

end PointerMotion
