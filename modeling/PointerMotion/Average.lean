/-
Velocity as an average over pairs of samples, each the oldest sample with a
later one that is not too close to it, weighted by the pair's duration.
-/
import PointerMotion.Track
import PointerMotion.Estimator

namespace PointerMotion

namespace Average

variable {α : Type} [Scalar α]

/-- Movements of the last fifth of a second count, also those of one time. -/
def limits : TrackLimits :=
  { horizon := 200000000, equalTimes := true }

/-- Pairs closer together than this are skipped. -/
def minDuration : Int :=
  10000000

/-- An average so far and the duration of the last pair in it. -/
structure Running (α : Type) where
  velocity : α
  lastDuration : Int

def Running.start : Running α :=
  ⟨0.0, 0⟩

/-- The velocity over `duration` nanoseconds. -/
def pairVelocity (oldest later : α) (duration : Int) : α :=
  (later - oldest) * (Scalar.ofInt 1000000000 / Scalar.ofInt duration)

def Running.add (r : Running α) (velocity : α) (duration : Int) : Running α :=
  { velocity :=
      (r.velocity * Scalar.ofInt r.lastDuration
          + velocity * Scalar.ofInt duration)
        / Scalar.ofInt (duration + r.lastDuration)
    lastDuration := duration }

/-- The track points that make a pair with the oldest one. -/
def partners (oldestTime : Int) (later : List (TrackPoint α)) :
    List (TrackPoint α) :=
  later.filter fun p => minDuration ≤ p.time - oldestTime

/-- The average velocity along one axis, the partners being oldest first. -/
def velocity (coordinate : Position α → α) (oldest : TrackPoint α)
    (partners : List (TrackPoint α)) : α :=
  let add (r : Running α) (p : TrackPoint α) : Running α :=
    let duration := p.time - oldest.time
    r.add
      (pairVelocity (coordinate oldest.position) (coordinate p.position)
        duration)
      duration
  (partners.foldl add Running.start).velocity

/-- The estimate of a track, newest first.  A track with no pair far enough
apart has the estimator that knows nothing. -/
def estimate (track : List (TrackPoint α)) : Option (Estimator α) :=
  match track, track.reverse with
  | newest :: _, oldest :: later =>
      let pairs := partners oldest.time later
      if pairs.isEmpty then some .cleared
      else
        some
          { time := newest.time
            degree := 1
            confidence := 1.0
            x :=
              { Quartic.zero with
                c0 := newest.position.x
                c1 := velocity Position.x oldest pairs }
            y :=
              { Quartic.zero with
                c0 := newest.position.y
                c1 := velocity Position.y oldest pairs } }
  | _, _ => none

end Average

end PointerMotion
