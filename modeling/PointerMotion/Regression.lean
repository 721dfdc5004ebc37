/-
Velocity from a polynomial fitted to a track, with ages in horizons.  The
degree is lowered until the samples determine a polynomial; at degree zero the
newest position is all that is known.
-/
import PointerMotion.Track
import PointerMotion.Estimator
import PointerMotion.Regression.Weight
import PointerMotion.Regression.Fit

namespace PointerMotion

namespace Regression

/-- The degree and the weights of a regression. -/
structure Plan where
  degree : Fin 5
  weighting : Weighting
  deriving Repr, DecidableEq

structure DegreeError where
  degree : Int
  deriving Repr, DecidableEq

def DegreeError.message (e : DegreeError) : String :=
  "Least-squares degree must be in [0, 4], got " ++ Decimal.intText e.degree

/-- A regression of a degree from zero to four. -/
def Plan.ofDegree? (degree : Int) (weighting : Weighting) :
    Except DegreeError Plan :=
  if h : 0 ≤ degree ∧ degree < 5 then .ok ⟨⟨degree.toNat, by omega⟩, weighting⟩
  else .error ⟨degree⟩

/-- Movements of the last tenth of a second count. -/
def limits : TrackLimits :=
  { horizon := 100000000, equalTimes := false }

variable {α : Type} [Scalar α]

/-- The horizon in seconds. -/
def scale : α :=
  Scalar.ofInt limits.horizon * Estimator.secondsPerNano

/-- The ages of a track's points in nanoseconds. -/
def ages (newest : Int) (track : List (TrackPoint α)) : List α :=
  track.map fun p => Scalar.ofInt (newest - p.time)

def millis (age : α) : α :=
  age / 1000000.0

/-- An age as a time before the newest sample, in horizons. -/
def horizons (age : α) : α :=
  -age * Estimator.secondsPerNano / scale

/-- Coefficients per power of a horizon as coefficients per power of a
second. -/
def toSeconds (coefficients : List α) : List α :=
  List.zipWith (fun c k => c / Fit.power scale k) coefficients
    (List.range coefficients.length)

/-- What a regression looks at. -/
structure Samples (α : Type) where
  times : List α
  weights : List α
  xs : List α
  ys : List α

/-- The samples of a track whose newest point has the time `newest`. -/
def Samples.ofTrack (weighting : Weighting) (newest : Int)
    (track : List (TrackPoint α)) :
    Samples α :=
  let ages := ages newest track
  { times := ages.map horizons
    weights := weighting.weights (ages.map millis)
    xs := track.map (·.position.x)
    ys := track.map (·.position.y) }

/-- The fits of both axes, if the samples determine a polynomial of the
degree. -/
def Samples.fit? (s : Samples α) (degree : Nat) :
    Option (Fit.Solution α × Fit.Solution α) :=
  match Fit.solve? s.times s.xs s.weights (degree + 1) with
  | none => none
  | some x =>
      (Fit.solve? s.times s.ys s.weights (degree + 1)).map fun y => (x, y)

/-- A degree together with the fits of both axes. -/
structure Model (α : Type) where
  degree : Nat
  x : Fit.Solution α
  y : Fit.Solution α

/-- The model of the highest degree from one to `degree` that the samples
determine. -/
def Samples.best? (s : Samples α) : Nat → Option (Model α)
  | 0 => none
  | degree + 1 =>
      match s.fit? (degree + 1) with
      | some (x, y) => some ⟨degree + 1, x, y⟩
      | none => s.best? degree

def Model.estimator (m : Model α) (time : Int) : Estimator α :=
  { time := time
    degree := m.degree
    confidence := m.x.determination * m.y.determination
    x := Quartic.ofList (toSeconds m.x.coefficients)
    y := Quartic.ofList (toSeconds m.y.coefficients) }

/-- The estimator of a pointer whose position is all that is known. -/
def standing (p : TrackPoint α) : Estimator α :=
  { Estimator.cleared with
    time := p.time
    x := { Quartic.zero with c0 := p.position.x }
    y := { Quartic.zero with c0 := p.position.y } }

def estimate (plan : Plan) (track : List (TrackPoint α)) :
    Option (Estimator α) :=
  match track with
  | [] => none
  | newest :: _ =>
      let samples := Samples.ofTrack plan.weighting newest.time track
      match samples.best? (min plan.degree.val (track.length - 1)) with
      | some model => some (model.estimator newest.time)
      | none => some (standing newest)

end Regression

end PointerMotion
