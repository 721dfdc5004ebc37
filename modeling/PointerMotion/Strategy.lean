/-
Estimation strategies.  One keeps a history and looks back over a pointer's
track when it is asked, the other filters the samples as they come.
-/
import PointerMotion.Impulse
import PointerMotion.Average
import PointerMotion.Filter
import PointerMotion.Regression
import PointerMotion.Selector

namespace PointerMotion

/-- How a track is turned into an estimate. -/
inductive TrackPlan where
  | regression (plan : Regression.Plan)
  | impulse
  | average
  deriving Repr, DecidableEq

/-- How a strategy estimates motion. -/
inductive Plan where
  | ofTrack (plan : TrackPlan)
  | filter (order : Filter.Order)
  deriving Repr, DecidableEq

namespace TrackPlan

def historySize : Nat :=
  20

/-- What ends a track. -/
def limits : TrackPlan → TrackLimits
  | regression _ => Regression.limits
  | impulse => Impulse.limits
  | average => Average.limits

/-- Whether a movement takes the place of one of the same time before it. -/
def mergesEqualTimes : TrackPlan → Bool
  | average => false
  | _ => true

def estimate {α : Type} [Scalar α] (plan : TrackPlan)
    (track : List (TrackPoint α)) :
    Option (Estimator α) :=
  match plan with
  | regression plan => Regression.estimate plan track
  | impulse => Impulse.estimate track
  | average => Average.estimate track

end TrackPlan

def StrategyId.plan : StrategyId → Plan
  | impulse => .ofTrack .impulse
  | lsq1 => .ofTrack (.regression ⟨1, .none⟩)
  | lsq2 => .ofTrack (.regression ⟨2, .none⟩)
  | lsq3 => .ofTrack (.regression ⟨3, .none⟩)
  | wlsq2Delta => .ofTrack (.regression ⟨2, .delta⟩)
  | wlsq2Central => .ofTrack (.regression ⟨2, .central⟩)
  | wlsq2Recent => .ofTrack (.regression ⟨2, .recent⟩)
  | int1 => .filter .velocity
  | int2 => .filter .acceleration
  | legacy => .ofTrack .average

/-- A strategy with what it remembers. -/
inductive Strategy (α : Type) where
  | ofTrack (plan : TrackPlan) (history : History α)
  | filter (order : Filter.Order) (table : Filter.Table α)

namespace Strategy

variable {α : Type}

def clear : Strategy α → Strategy α
  | ofTrack plan history => ofTrack plan history.clear
  | filter order table => filter order (table.withKnown ∅)

def clearPointers (s : Strategy α) (gone : PointerSet) : Strategy α :=
  match s with
  | ofTrack plan history => ofTrack plan (history.removePointers gone)
  | filter order table => filter order (table.withKnown (table.known \ gone))

/-- A history with one more movement.  A movement of the newest one's time takes
its place where the plan says so; one before it is worth a warning. -/
def record (plan : TrackPlan) (history : History α) (m : Movement α) :
    Outcome (History α) :=
  match history.newest? with
  | none => .done (history.append m)
  | some newest =>
      if plan.mergesEqualTimes && newest.time == m.time then
        .done (history.replaceNewest m)
      else if m.time < newest.time then
        (Outcome.done (history.append m)).warn (.outOfOrder m.time newest.time)
      else .done (history.append m)

variable [Scalar α]

def ofPlan : Plan → Strategy α
  | .ofTrack plan =>
      ofTrack plan (History.ofCapacity TrackPlan.historySize (by decide))
  | .filter order => filter order .empty

/-- Adds the positions of a set of pointers at a time, ordered by ascending
id. -/
def add (s : Strategy α) (time : Reading α) (ids : PointerSet)
    (points : List (Point α)) :
    Outcome (Strategy α) :=
  match s with
  | ofTrack plan history =>
      Outcome.orFail (Movement.make? time ids points) s fun m =>
        (record plan history m).map (ofTrack plan)
  | filter order table =>
      (Filter.add order time ids points table).map (filter order)

/-- The estimate of a pointer's motion, if anything is known about it. -/
def estimate (s : Strategy α) (id : PointerId) : Option (Estimator α) :=
  match s with
  | ofTrack plan history => plan.estimate (history.track id plan.limits)
  | filter order table => (table.motion? id).map (·.estimator order)

/-- The estimate of the pointer that a number names.  A strategy that keeps a
history looks at the number only when there is a movement to look for it in. -/
def estimateOf? (s : Strategy α) (id : Int) :
    Except PointerError (Option (Estimator α)) :=
  match PointerId.ofInt? id with
  | .ok id => .ok (s.estimate id)
  | .error e =>
      match s with
      | ofTrack _ history => if history.count = 0 then .ok none else .error e
      | filter _ _ => .error e

end Strategy

end PointerMotion
