/-
The recent track of one pointer, read off the movements from the newest back
up to the first that lacks the pointer, is too old or out of order.
-/
import PointerMotion.History

namespace PointerMotion

/-- Where the pointer of a track was at one time. -/
structure TrackPoint (α : Type) where
  time : Int
  position : Position α
  deriving DecidableEq

/-- What ends a track. -/
structure TrackLimits where
  /-- greatest age, relative to the newest movement -/
  horizon : Int
  /-- whether neighbours of one time belong to one track -/
  equalTimes : Bool
  deriving DecidableEq

namespace TrackLimits

/-- Whether a time may stand behind the time `later` in a track. -/
def follows (limits : TrackLimits) (later time : Int) : Bool :=
  time < later || (limits.equalTimes && time == later)

end TrackLimits

namespace History

variable {α : Type}

/-- The track through movements that follow one of time `later`. -/
def trackBehind (id : PointerId) (limits : TrackLimits) (newest later : Int) :
    List (Movement α) → List (TrackPoint α)
  | [] => []
  | m :: rest =>
      match m.position? id with
      | none => []
      | some p =>
          if newest - m.time ≤ limits.horizon
              && limits.follows later m.time then
            ⟨m.time, p⟩ :: trackBehind id limits newest m.time rest
          else []

/-- The track of a pointer through movements from the newest back. -/
def trackThrough (id : PointerId) (limits : TrackLimits) :
    List (Movement α) → List (TrackPoint α)
  | [] => []
  | m :: rest =>
      match m.position? id with
      | none => []
      | some p =>
          if 0 ≤ limits.horizon then
            ⟨m.time, p⟩ :: trackBehind id limits m.time m.time rest
          else []

/-- The recent track of a pointer, newest first. -/
def track (h : History α) (id : PointerId) (limits : TrackLimits) :
    List (TrackPoint α) :=
  trackThrough id limits h.newestFirst

/-- The recent track of the pointer that a number names.  The number is looked
at only when there is a movement to look for it in. -/
def trackOf? (h : History α) (id : Int) (limits : TrackLimits) :
    Except PointerError (List (TrackPoint α)) :=
  match PointerId.ofInt? id with
  | .ok id => .ok (h.track id limits)
  | .error e => if h.count = 0 then .ok [] else .error e

end History

end PointerMotion
