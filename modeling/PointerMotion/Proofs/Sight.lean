/-
What a strategy knows of one pointer, and that no other pointer tells it more:
the glimpses in the history, or the motion in the filter's table.
-/
import Mathlib.Data.List.Forall2
import PointerMotion.Proofs.Run

namespace PointerMotion

variable {α : Type}

/-- Whether a strategy of a plan can keep a time. -/
def Plan.HoldsTime : Plan → Int → Prop
  | .ofTrack _, _ => True
  | .filter _, time => Filter.fitsWord time = true

instance (plan : Plan) (time : Int) : Decidable (plan.HoldsTime time) :=
  match plan with
  | .ofTrack _ => inferInstanceAs (Decidable True)
  | .filter _ => inferInstanceAs (Decidable (Filter.fitsWord time = true))

/-- What a strategy knows of one pointer. -/
inductive Sight (α : Type) where
  | ofTrack (plan : TrackPlan) (capacity : Nat) (glimpses : List (Glimpse α))
  | filter (order : Filter.Order) (motion? : Option (Filter.Motion α))

namespace Strategy

def plan : Strategy α → Plan
  | ofTrack plan _ => .ofTrack plan
  | filter order _ => .filter order

/-- What the strategy knows of a pointer. -/
def sight (s : Strategy α) (id : PointerId) : Sight α :=
  match s with
  | ofTrack plan history => .ofTrack plan history.capacity (history.glimpses id)
  | filter order table => .filter order (table.motion? id)

end Strategy

namespace Sight

def plan : Sight α → Plan
  | ofTrack plan _ _ => .ofTrack plan
  | filter order _ => .filter order

@[simp] theorem plan_sight (s : Strategy α) (id : PointerId) :
    (s.sight id).plan = s.plan := by
  cases s <;> rfl

/-- The motion in the filter's table, if the sight is of one. -/
def motion? : Sight α → Option (Filter.Motion α)
  | ofTrack _ _ _ => none
  | filter _ motion? => motion?

/-- What a new strategy of a plan knows of any pointer. -/
def unseen : Plan → Sight α
  | .ofTrack plan => ofTrack plan TrackPlan.historySize []
  | .filter order => filter order none

/-- The sight of a pointer once everything is forgotten. -/
def cleared : Sight α → Sight α
  | ofTrack plan capacity _ => ofTrack plan capacity []
  | filter order _ => filter order none

/-- The sight of a pointer once it is taken out of every movement. -/
def forgotten : Sight α → Sight α
  | ofTrack plan capacity glimpses =>
      ofTrack plan capacity (glimpses.map fun g => ⟨g.time, none⟩)
  | filter order _ => filter order none

variable [Scalar α]

/-- The sight of a pointer after a movement that shows `g` of it. -/
def seeing (v : Sight α) (g : Glimpse α) : Sight α :=
  match v with
  | ofTrack plan capacity glimpses =>
      ofTrack plan capacity (Strategy.recordGlimpse plan capacity g glimpses)
  | filter order motion? =>
      filter order (g.position?.map fun p =>
          Filter.Motion.next order g.time p motion?)

def after (id : PointerId) (v : Sight α) : Step α → Sight α
  | .add m => v.seeing (m.glimpse id)
  | .clear => v.cleared
  | .clearPointers gone => if id ∈ gone then v.forgotten else v

def estimate : Sight α → Option (Estimator α)
  | ofTrack plan _ glimpses => plan.estimate (plan.limits.cut (streak glimpses))
  | filter order motion? => motion?.map (·.estimator order)

end Sight

namespace Strategy

@[simp] theorem plan_clear (s : Strategy α) : s.clear.plan = s.plan := by
  cases s <;> rfl

/-- A strategy keeps its plan, whether it is cleared or not. -/
theorem plan_ite_clear (s : Strategy α) (p : Prop) [Decidable p] :
    (if p then s.clear else s).plan = s.plan := by
  split
  · exact s.plan_clear
  · rfl

@[simp] theorem plan_clearPointers (s : Strategy α) (gone : PointerSet) :
    (s.clearPointers gone).plan = s.plan := by
  cases s <;> rfl

@[simp] theorem sight_clear (s : Strategy α) (id : PointerId) :
    s.clear.sight id = (s.sight id).cleared := by
  cases s with
  | ofTrack plan history => simp [clear, sight, Sight.cleared]
  | filter order table =>
      simp [clear, sight, Sight.cleared, Filter.Table.motion?_withKnown]

theorem sight_clearPointers (s : Strategy α) (gone : PointerSet)
    (id : PointerId) :
    (s.clearPointers gone).sight id =
      if id ∈ gone then (s.sight id).forgotten else s.sight id := by
  cases s with
  | ofTrack plan history =>
      simp only [clearPointers, sight, History.capacity_removePointers,
        History.glimpses_removePointers]
      split
      · simp [Sight.forgotten, History.glimpses, Function.comp_def]
      · rfl
  | filter order table =>
      simp only [clearPointers, sight, Filter.Table.motion?_withKnown_sdiff]
      split <;> rfl

variable [Scalar α]

/-- The estimate of a pointer is made from its sight alone. -/
theorem estimate_eq (s : Strategy α) (id : PointerId) :
    s.estimate id = (s.sight id).estimate := by
  cases s with
  | ofTrack plan history =>
      rw [estimate, History.track_eq_cut_streak]
      rfl
  | filter order table => rfl

theorem error_addMovement_of_holdsTime {s : Strategy α} {m : Movement α}
    (h : s.plan.HoldsTime m.time) : (s.addMovement m).error = none := by
  cases s with
  | ofTrack plan history =>
      rw [addMovement_ofTrack]
      exact error_record plan history m
  | filter order table =>
      rw [addMovement_filter]
      apply (Filter.error_addMovement_eq_none_iff order m table).mpr
      intro id _
      exact Filter.not_refused_of_fitsWord h

/-- A movement changes the sight of a pointer by what it shows of that
pointer. -/
theorem sight_addMovement {s : Strategy α} {m : Movement α}
    (hok : (s.addMovement m).error = none) (id : PointerId) :
    (s.addMovement m).state.sight id = (s.sight id).seeing (m.glimpse id) := by
  cases s with
  | ofTrack plan history =>
      rw [addMovement_ofTrack]
      simp [Outcome.map, sight, Sight.seeing, glimpses_record]
  | filter order table =>
      rw [addMovement_filter] at hok ⊢
      simp only [Outcome.map, sight, Sight.seeing,
        Filter.motion?_addMovement hok]
      rfl

@[simp] theorem plan_perform (s : Strategy α) (step : Step α) :
    (s.perform step).state.plan = s.plan := by
  cases step with
  | add m =>
      cases s with
      | ofTrack plan history =>
          rw [perform, addMovement_ofTrack]
          rfl
      | filter order table => rfl
  | clear => exact s.plan_clear
  | clearPointers gone => exact s.plan_clearPointers gone

theorem sight_perform {s : Strategy α} {step : Step α}
    (h : ∀ m, step = .add m → s.plan.HoldsTime m.time) (id : PointerId) :
    (s.perform step).state.sight id = (s.sight id).after id step := by
  cases step with
  | add m =>
      exact sight_addMovement (error_addMovement_of_holdsTime (h m rfl)) id
  | clear => exact s.sight_clear id
  | clearPointers gone => exact s.sight_clearPointers gone id

/-- What a run leaves of a pointer is computed from the pointer's sight
alone. -/
theorem sight_run {s : Strategy α} {steps : List (Step α)}
    (h : ∀ time ∈ Step.times steps, s.plan.HoldsTime time) (id : PointerId) :
    (s.run steps).sight id = steps.foldl (Sight.after id) (s.sight id) := by
  induction steps generalizing s with
  | nil => rfl
  | cons step rest ih =>
      have hfirst : ∀ m, step = .add m → s.plan.HoldsTime m.time := by
        rintro m rfl
        exact h m.time (Step.mem_times List.mem_cons_self)
      have hstep := sight_perform hfirst id
      have hrest : ∀ time ∈ Step.times rest,
          (s.perform step).state.plan.HoldsTime time := by
        intro time htime
        rw [plan_perform]
        exact h time (List.Sublist.mem htime
            (Step.times_sublist_cons step rest))
      calc (s.run (step :: rest)).sight id
          = ((s.perform step).state.run rest).sight id := rfl
        _ = rest.foldl (Sight.after id) ((s.perform step).state.sight id) :=
          ih hrest
        _ = (step :: rest).foldl (Sight.after id) (s.sight id) := by
          rw [hstep]; rfl

end Strategy

namespace Step

/-- Whether a step has to do with a pointer: all do but the removal of
others. -/
def Concerns (id : PointerId) : Step α → Bool
  | clearPointers gone => id ∈ gone
  | _ => true

/-- Whether two steps are alike but for other pointers than the given one. -/
def Alike (id : PointerId) : Step α → Step α → Prop
  | add m, add n => m.time = n.time ∧ m.position? id = n.position? id
  | clear, clear => True
  | clearPointers gone, clearPointers gone' => id ∈ gone ↔ id ∈ gone'
  | _, _ => False

instance [DecidableEq α] (id : PointerId) (left right : Step α) :
    Decidable (left.Alike id right) :=
  match left, right with
  | add m, add n =>
      inferInstanceAs
        (Decidable (m.time = n.time ∧ m.position? id = n.position? id))
  | clear, clear => inferInstanceAs (Decidable True)
  | clearPointers gone, clearPointers gone' =>
      inferInstanceAs (Decidable (id ∈ gone ↔ id ∈ gone'))
  | add _, clear | add _, clearPointers _ | clear, add _ | clear,
    clearPointers _
  | clearPointers _, add _ | clearPointers _, clear =>
      inferInstanceAs (Decidable False)

end Step

namespace Sight

variable [Scalar α]

theorem foldl_after_filter_concerns (id : PointerId) (steps : List (Step α))
    (v : Sight α) :
    (steps.filter (Step.Concerns id)).foldl (after id) v =
      steps.foldl (after id) v := by
  induction steps generalizing v with
  | nil => rfl
  | cons step rest ih =>
      by_cases hconcerns : step.Concerns id = true
      · rw [List.filter_cons_of_pos hconcerns, List.foldl_cons,
          List.foldl_cons, ih]
      · have hsame : v.after id step = v := by
          cases step with
          | add m => simp [Step.Concerns] at hconcerns
          | clear => simp [Step.Concerns] at hconcerns
          | clearPointers gone =>
              exact if_neg (by simpa [Step.Concerns] using hconcerns)
        rw [List.filter_cons_of_neg hconcerns, List.foldl_cons, hsame, ih]

theorem after_eq_of_alike {id : PointerId} {left right : Step α}
    (h : left.Alike id right) (v : Sight α) :
    v.after id left = v.after id right := by
  cases left <;> cases right <;> simp_all [Step.Alike, after, Movement.glimpse]

theorem foldl_after_eq_of_alike {id : PointerId} {left right : List (Step α)}
    (h : List.Forall₂ (Step.Alike id) left right) (v : Sight α) :
    left.foldl (after id) v = right.foldl (after id) v := by
  induction h generalizing v with
  | nil => rfl
  | cons hstep _ ih =>
      rw [List.foldl_cons, List.foldl_cons, after_eq_of_alike hstep, ih]

end Sight

namespace Strategy

variable [Scalar α]

@[simp] theorem plan_ofPlan (plan : Plan) :
    (ofPlan plan : Strategy α).plan = plan := by
  cases plan <;> rfl

@[simp] theorem sight_ofPlan (plan : Plan) (id : PointerId) :
    (ofPlan plan : Strategy α).sight id = .unseen plan := by
  cases plan with
  | ofTrack plan => simp [ofPlan, sight, Sight.unseen]
  | filter order =>
      simp [ofPlan, sight, Sight.unseen, Filter.Table.motion?,
        Filter.Table.empty]

/-- Runs that are alike for a pointer, once the removals of others are left out,
lead to the same estimate of it, whatever they say of other pointers. -/
theorem estimate_run_eq_of_alike (plan : Plan) (id : PointerId)
    {left right : List (Step α)}
    (hleft : ∀ time ∈ Step.times left, plan.HoldsTime time)
    (hright : ∀ time ∈ Step.times right, plan.HoldsTime time)
    (halike : List.Forall₂ (Step.Alike id) (left.filter (Step.Concerns id))
      (right.filter (Step.Concerns id))) :
    ((ofPlan plan).run left).estimate id =
      ((ofPlan plan).run right).estimate id := by
  have hsight : ((ofPlan plan).run left).sight id =
      ((ofPlan plan).run right).sight id := by
    rw [sight_run (by simpa using hleft), sight_run (by simpa using hright),
      ← Sight.foldl_after_filter_concerns id left,
      ← Sight.foldl_after_filter_concerns id right]
    exact Sight.foldl_after_eq_of_alike halike _
  rw [estimate_eq, estimate_eq, hsight]

theorem estimate_run_crowdedRun :
    ((ofPlan (.filter .acceleration)).run crowdedRun).estimate 1 =
      ((ofPlan (.filter .acceleration)).run otherwiseCrowdedRun).estimate 1 :=
  estimate_run_eq_of_alike _ 1 (by decide +kernel) (by decide +kernel)
    (by decide +kernel)

end Strategy

end PointerMotion
