/-
The tracker: the motion of all pointers over one strategy.  When a pointer is
seen again after too long a pause, the strategy starts from nothing.
-/
import PointerMotion.Settings
import PointerMotion.Strategy

namespace PointerMotion

/-- What a caller asks for when a tracker is made. -/
inductive StrategyRequest where
  | selector (s : Selector)
  | name (text : String)
  | number (n : Int)
  /-- a value of a kind that names no strategy -/
  | unsupported (kind : String)
  deriving Repr, DecidableEq

namespace StrategyRequest

/-- The selector that a request denotes, if there is one. -/
def selector? : StrategyRequest → Option Selector
  | selector s => some s
  | name text => Selector.ofName? text
  | number n => Selector.ofCode? n
  | unsupported _ => none

def shown : StrategyRequest → String
  | selector s =>
      "<Strategy." ++ s.name ++ ": " ++ Decimal.intText s.code ++ ">"
  | name text => Text.quoted text
  | number n => Decimal.intText n
  | unsupported kind => kind

end StrategyRequest

inductive CreationError where
  /-- the request is of a kind that names no strategy -/
  | unsupported (kind : String)
  /-- the settings name no strategy either -/
  | noConcreteDefault
  deriving Repr, DecidableEq

def CreationError.message : CreationError → String
  | .unsupported kind =>
      "Strategy must be a Strategy, name or int, got " ++ kind
  | .noConcreteDefault =>
      "Default strategy must be a concrete strategy, got " ++
        Selector.configured.name

/-- A tracker of up to sixteen pointers. -/
structure Tracker (α : Type) where
  settings : Settings α
  strategyId : StrategyId
  strategy : Strategy α
  lastTime : Int
  current : PointerSet
  /-- the current ids in the order in which they joined, the latest last -/
  introduced : List PointerId

/-- A set of pointers as a caller gives it. -/
inductive PointerChoice where
  | listed (ids : List Int)
  | masked (mask : Int)
  | known (set : PointerSet)
  deriving Repr, DecidableEq

def PointerChoice.toSet? : PointerChoice → Except PointerError PointerSet
  | listed ids => PointerSet.ofInts? ids
  | masked mask => PointerSet.ofMask? mask
  | known set => .ok set

namespace Tracker

/-- At most this many pointers of a movement are tracked, the smallest ids
first. -/
def maxPointers : Nat :=
  16

variable {α : Type}

/-- A tracker that has seen nothing. -/
def ofStrategy [Scalar α] (id : StrategyId)
    (settings : Settings α) : Tracker α :=
  { settings := settings
    strategyId := id
    strategy := Strategy.ofPlan id.plan
    lastTime := 0
    current := ∅
    introduced := [] }

/-- A tracker or the reason why there is none, with the warnings on the way. -/
structure Creation (α : Type) where
  warnings : List Warning
  result : Except CreationError (Tracker α)

/-- The tracker of a request.  A request that names no strategy falls back on
the strategy of the settings, with a warning. -/
def create [Scalar α] (request : StrategyRequest)
    (settings : Settings α) : Creation α :=
  match request with
  | .unsupported kind => ⟨[], .error (.unsupported kind)⟩
  | _ =>
      match request.selector?.map settings.resolve with
      | some (.concrete id) => ⟨[], .ok (ofStrategy id settings)⟩
      | _ =>
          let warning :=
            Warning.unknownStrategy request.shown settings.fallback.name
          match settings.fallback with
          | .concrete id => ⟨[warning], .ok (ofStrategy id settings)⟩
          | .configured => ⟨[warning], .error .noConcreteDefault⟩

def active? (t : Tracker α) : Option PointerId :=
  t.introduced.getLast?

/-- Makes a set the current one; those who join do so by ascending id. -/
def setCurrent (t : Tracker α) (ids : PointerSet) : Tracker α :=
  { t with
    current := ids
    introduced := t.introduced.filter (· ∈ ids) ++ (ids \ t.current).toList }

def clear (t : Tracker α) : Tracker α :=
  { t.setCurrent ∅ with strategy := t.strategy.clear }

def clearSet (t : Tracker α) (gone : PointerSet) : Tracker α :=
  { t.setCurrent (t.current \ gone) with
    strategy := t.strategy.clearPointers gone }

def clearPointers (t : Tracker α) (gone : PointerChoice) :
    Outcome (Tracker α) :=
  Outcome.orFail (gone.toSet?.mapError .pointer) t fun gone =>
    .done (t.clearSet gone)

variable [Scalar α]

/-- Whether a movement comes after so long a pause that every pointer has
stopped.  The settings are looked at only when the movement shows a current
pointer. -/
def stoppedBy (t : Tracker α) (ids : PointerSet) (time : Int) :
    Except ConversionError Bool :=
  if (t.current ∩ ids).isEmpty then .ok false
  else t.settings.stoppedTime.map fun pause => t.lastTime + pause ≤ time

/-- Adds a movement whose parts have been read and fit together. -/
def addRead (t : Tracker α) (time : Int) (ids : PointerSet)
    (positions : List (Position α)) :
    Outcome (Tracker α) :=
  Outcome.orFail ((t.stoppedBy ids time).mapError .conversion) t fun stopped =>
    let strategy := if stopped then t.strategy.clear else t.strategy
    let next := { t.setCurrent ids with lastTime := time }
    (strategy.add (.whole time) ids (positions.map Point.ofPosition)).map
      fun strategy => { next with strategy := strategy }

/-- Adds the positions of a set of pointers at a time, ordered by ascending
id. -/
def addSet (t : Tracker α) (time : Reading α) (ids : PointerSet)
    (points : List (Point α)) :
    Outcome (Tracker α) :=
  if points.length = ids.card then
    Outcome.orFail (points.mapM Point.toPosition) t fun positions =>
      Outcome.orFail time.toInt t fun time =>
        t.addRead time (ids.lowest maxPointers) (positions.take maxPointers)
  else .failed t (.positionCount ids points.length)

def add (t : Tracker α) (time : Reading α) (ids : PointerChoice)
    (points : List (Point α)) :
    Outcome (Tracker α) :=
  Outcome.orFail (ids.toSet?.mapError .pointer) t fun ids =>
    t.addSet time ids points

/-- The estimate of a pointer's recent motion, if anything is known about it. -/
def estimate (t : Tracker α) (id : PointerId) : Option (Estimator α) :=
  t.strategy.estimate id

def estimateOf? (t : Tracker α) (id : Int) :
    Except InputError (Option (Estimator α)) :=
  ((PointerId.ofInt? id).mapError .pointer).map t.estimate

omit [Scalar α] in
def velocityOf (estimate : Option (Estimator α)) : Option (Position α) :=
  match estimate with
  | some e => if 1 ≤ e.degree then some ⟨e.x.c1, e.y.c1⟩ else none
  | none => none

/-- The velocity of a pointer in input units per second, if it is known. -/
def velocity (t : Tracker α) (id : PointerId) : Option (Position α) :=
  velocityOf (t.estimate id)

end Tracker

end PointerMotion
