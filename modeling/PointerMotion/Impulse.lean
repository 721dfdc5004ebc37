/-
Velocity from the impulses of a track.  A unit mass starts at rest, and the
work of every interval is accumulated as signed kinetic energy.
-/
import PointerMotion.Track
import PointerMotion.Estimator
import PointerMotion.Outcome

namespace PointerMotion

namespace Impulse

variable {α : Type} [Scalar α]

/-- A coordinate at a time. -/
structure Sample (α : Type) where
  time : Int
  coordinate : α

/-- The signed velocity of a unit mass of some signed kinetic energy. -/
def velocityOfEnergy (work : α) : α :=
  Scalar.copySign (Scalar.sqrt (Scalar.abs work) * Scalar.sqrt 2.0) work

def intervalVelocity (older newer : Sample α) : α :=
  (older.coordinate - newer.coordinate)
    / (Estimator.secondsPerNano * Scalar.ofInt (older.time - newer.time))

/-- The work after an interval; an interval of no duration adds none. -/
def workAfter (work : α) (older newer : Sample α) : α :=
  if older.time = newer.time then work
  else
    let velocity := intervalVelocity older newer
    work + (velocity - velocityOfEnergy work) * Scalar.abs velocity

/-- The work after the remaining samples, oldest first. -/
def workThrough (work : α) : List (Sample α) → α
  | older :: newer :: rest =>
      workThrough (workAfter work older newer) (newer :: rest)
  | _ => work

/-- The work of all intervals, oldest first.  Of the first one only half counts,
because the pointer starts at rest. -/
def totalWork : List (Sample α) → α
  | older :: newer :: rest =>
      let work := workAfter 0.0 older newer
      let work := if older.time = newer.time then work else work * 0.5
      workThrough work (newer :: rest)
  | _ => 0.0

/-- The velocity along one axis, from samples newest first. -/
def velocity (samples : List (Sample α)) : α :=
  match samples with
  | [newer, older] =>
      if older.time = newer.time then 0.0 else intervalVelocity older newer
  | _ =>
      if samples.length < 2 then 0.0
      else velocityOfEnergy (totalWork samples.reverse)

/-- Goes through the intervals from the oldest on, `known` being the number of
coordinates at hand for the times, which are oldest first here.  An interval of
no duration is worth a warning; any other needs the coordinates of both ends and
a duration in the range of scalars. -/
def inspectFrom (known : Nat) : List Int → Outcome Unit
  | older :: newer :: rest =>
      if older = newer then
        (inspectFrom known (newer :: rest)).warn (.skippedInterval older)
      else if known < rest.length + 2 then .failed () .missingCoordinate
      else if Scalar.holdsInt (α := α) (older - newer) then
        inspectFrom known (newer :: rest)
      else .failed () (.conversion .outOfRange)
  | _ => .done ()

/-- What an estimate over times, newest first, warns of and fails with. -/
def inspect (known : Nat) (times : List Int) : Outcome Unit :=
  match times with
  | [newer, older] =>
      if older = newer then (Outcome.done ()).warn (.noInterval newer)
      else inspectFrom (α := α) known [older, newer]
  | _ => inspectFrom (α := α) known times.reverse

/-- Movements of the last tenth of a second count. -/
def limits : TrackLimits :=
  { horizon := 100000000, equalTimes := false }

def axis (coordinate : Position α → α) (track : List (TrackPoint α)) :
    List (Sample α) :=
  track.map fun p => ⟨p.time, coordinate p.position⟩

/-- The estimate of a track, which needs two points. -/
def estimate (track : List (TrackPoint α)) : Option (Estimator α) :=
  match track with
  | newest :: _ :: _ =>
      some
        { time := newest.time
          degree := 1
          confidence := 1.0
          x := { Quartic.zero with
            c0 := newest.position.x, c1 := velocity (axis Position.x track) }
          y := { Quartic.zero with
            c0 := newest.position.y, c1 := velocity (axis Position.y track) } }
  | _ => none

end Impulse

end PointerMotion
