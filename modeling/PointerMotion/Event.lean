/-
Motion events: samples of one set of pointers delivered together, oldest first.
Samples are produced one at a time, so one that cannot be read stops a replay
only when its turn comes.
-/
import PointerMotion.Tracker

namespace PointerMotion

/-- What happened to the pointers of an event. -/
inductive Action where
  | down
  | up
  | move
  | cancel
  | pointerDown
  | pointerUp
  | hoverEnter
  | hoverMove
  | hoverExit
  deriving Repr, DecidableEq

namespace Action

def all : List Action :=
  [down, up, move, cancel, pointerDown, pointerUp, hoverEnter,
    hoverMove, hoverExit]

def name : Action → String
  | down => "down"
  | up => "up"
  | move => "move"
  | cancel => "cancel"
  | pointerDown => "pointer_down"
  | pointerUp => "pointer_up"
  | hoverEnter => "hover_enter"
  | hoverMove => "hover_move"
  | hoverExit => "hover_exit"

def ofName? (name : String) : Option Action :=
  all.find? fun a => a.name == name

end Action

/-- The positions of an event's pointers at one time. -/
structure EventSample (α : Type) where
  time : Reading α
  points : List (Point α)
  deriving Repr, DecidableEq

/-- An event with its older samples, oldest first, and its final one. -/
structure MotionEvent (α : Type) where
  action : Action
  ids : List Int
  history : List (EventSample α)
  final : EventSample α
  /-- the place among the ids of the pointer that the action is about -/
  actionIndex : Int
  deriving Repr, DecidableEq

inductive EventError where
  | unknownAction (name : String)
  | duplicateIds (ids : List Int)
  | positionCount (expected : Nat)
  | actionIndex (index : Int) (pointers : Nat)
  | input (cause : InputError)
  deriving Repr, DecidableEq

def EventError.message : EventError → String
  | .unknownAction name => "no action is called " ++ Text.quoted name
  | .duplicateIds ids =>
      "Duplicate pointer ids in event: " ++ PointerSet.listText ids
  | .positionCount expected =>
      "Every sample must carry " ++ Decimal.natText expected ++ " positions"
  | .actionIndex index pointers =>
      "Action index " ++ Decimal.intText index ++ " out of range for "
        ++ Decimal.natText pointers ++ " pointers"
  | .input cause => cause.message

/-- A sample ready for a tracker: positions by ascending id. -/
structure Sample (α : Type) where
  time : Reading α
  ids : PointerSet
  points : List (Point α)
  deriving Repr, DecidableEq

/-- A delivered point that holds exactly two coordinates. -/
def Point.pair? {α : Type} (p : Point α) : Except InputError (Point α) :=
  if p.length = 2 then .ok p else .error .notAPair

namespace MotionEvent

variable {α : Type}

/-- Whether every sample has a position for each pointer. -/
def sized (e : MotionEvent α) : Bool :=
  e.final.points.length == e.ids.length
    && e.history.all fun s => s.points.length == e.ids.length

/-- The event, if its parts fit together. -/
def check (e : MotionEvent α) : Except EventError (MotionEvent α) :=
  if ¬ e.ids.Nodup then .error (.duplicateIds e.ids)
  else if ¬ e.sized then .error (.positionCount e.ids.length)
  else if e.ids ≠ [] ∧ ¬ (0 ≤ e.actionIndex ∧ e.actionIndex < e.ids.length) then
    .error (.actionIndex e.actionIndex e.ids.length)
  else .ok e

def idSet? (e : MotionEvent α) : Except InputError PointerSet :=
  (PointerSet.ofInts? e.ids).mapError .pointer

/-- The id of the pointer that the action is about. -/
def actionPointer? (e : MotionEvent α) : Except InputError Int :=
  match e.ids[e.actionIndex.toNat]? with
  | some id => .ok id
  | none => .error .noActionPointer

/-- The points of a sample by ascending id. -/
def arrange (e : MotionEvent α) (points : List (Point α)) : List (Point α) :=
  ((e.ids.zip points).mergeSort fun a b => a.1 ≤ b.1).map (·.2)

variable [Scalar α]

/-- The event with one more older sample, which follows the older ones so
far. -/
def addHistorical (e : MotionEvent α) (s : EventSample α) :
    Except EventError (MotionEvent α) :=
  if s.points.length ≠ e.ids.length then .error (.positionCount e.ids.length)
  else
    match s.time.toInt with
    | .error cause => .error (.input cause)
    | .ok time =>
        match s.points.mapM Point.pair? with
        | .error cause => .error (.input cause)
        | .ok points =>
            .ok { e with history := e.history ++ [⟨.whole time, points⟩] }

def readyHistorical (e : MotionEvent α) (ids : PointerSet) (s : EventSample α) :
    Except InputError (Sample α) :=
  ((e.arrange s.points).mapM Point.pair?).map fun points =>
    ⟨s.time, ids, points⟩

/-- The final sample made ready; its time is read first. -/
def readyFinal (e : MotionEvent α) (ids : PointerSet) :
    Except InputError (Sample α) :=
  e.final.time.toInt.bind fun time =>
    ((e.arrange e.final.points).mapM Point.pair?).map fun points =>
      ⟨.whole time, ids, points⟩

/-- The samples oldest first, each as far as it can be made ready. -/
def samples (e : MotionEvent α) :
    Except InputError (List (Except InputError (Sample α))) :=
  e.idSet?.map fun ids =>
    e.history.map (e.readyHistorical ids) ++ [e.readyFinal ids]

end MotionEvent

namespace Tracker

variable {α : Type} [Scalar α]

/-- The tracker as an event finds it: a new gesture starts from nothing, a
pointer that goes down may reuse an id, and a movement changes nothing yet.  Any
other event has no part in the motion. -/
def openEvent? (t : Tracker α) (e : MotionEvent α) :
    Option (Outcome (Tracker α)) :=
  match e.action with
  | .down | .hoverEnter => some (.done t.clear)
  | .pointerDown =>
      some (Outcome.orFail e.actionPointer? t fun id =>
          t.clearPointers (.listed [id]))
  | .move | .hoverMove => some (.done t)
  | .up | .cancel | .pointerUp | .hoverExit => none

def addSample (sample : Except InputError (Sample α)) (t : Tracker α) :
    Outcome (Tracker α) :=
  Outcome.orFail sample t fun s => t.addSet s.time s.ids s.points

/-- Adds the samples of an event, oldest first, until one fails. -/
def addSamples (e : MotionEvent α) (t : Tracker α) : Outcome (Tracker α) :=
  Outcome.orFail e.samples t fun samples =>
    Outcome.runAll (samples.map addSample) t

def addEvent (t : Tracker α) (e : MotionEvent α) : Outcome (Tracker α) :=
  match t.openEvent? e with
  | none => .done t
  | some opened => opened.andThen (addSamples e)

end Tracker

end PointerMotion
