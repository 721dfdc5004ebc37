/-
A filter that follows each pointer's motion sample by sample.  The row of a
pointer outlives it: which rows count is said by the known pointers alone, and
a pointer that begins has its row written anew.
-/
import PointerMotion.Estimator
import PointerMotion.Outcome

namespace PointerMotion

namespace Filter

/-- What a filter follows beside the position. -/
inductive Order where
  | velocity
  | acceleration
  deriving Repr, DecidableEq

/-- The number of derivatives that an order follows. -/
def Order.degree : Order → Nat
  | velocity => 1
  | acceleration => 2

structure DegreeError where
  degree : Int
  deriving Repr, DecidableEq

def DegreeError.message (e : DegreeError) : String :=
  "Integrating degree must be 1 or 2, got " ++ Decimal.intText e.degree

def Order.ofDegree? (degree : Int) : Except DegreeError Order :=
  if degree = 1 then .ok velocity
  else if degree = 2 then .ok acceleration
  else .error ⟨degree⟩

/-- The motion along one axis. -/
structure Axis (α : Type) where
  position : α
  velocity : α
  acceleration : α
  deriving Repr, DecidableEq

/-- The motion of one pointer; `measured` counts the derivatives measured so
far. -/
structure Motion (α : Type) where
  time : Int
  measured : Nat
  x : Axis α
  y : Axis α
  deriving Repr, DecidableEq

/-- A row for every pointer, and the pointers whose rows count. -/
structure Table (α : Type) where
  known : PointerSet
  rows : Vector (Motion α) 32

namespace Table

variable {α : Type}

def motion? (table : Table α) (id : PointerId) : Option (Motion α) :=
  if id ∈ table.known then some (table.rows.get id) else none

instance : GetElem (Table α) PointerId (Option (Motion α)) fun _ _ => True where
  getElem table id _ := table.motion? id

def put (table : Table α) (id : PointerId) (m : Motion α) : Table α :=
  { table with rows := table.rows.set id m id.isLt }

def withKnown (table : Table α) (ids : PointerSet) : Table α :=
  { table with known := ids }

end Table

variable {α : Type}

/-- Updates closer together than this are ignored. -/
def minElapsed : Int :=
  2000000

/-- Times are kept in signed words of 64 bits. -/
def fitsWord (time : Int) : Bool :=
  Int64.minValue.toInt ≤ time && time ≤ Int64.maxValue.toInt

variable [Scalar α]

def Axis.resting (position : α) : Axis α :=
  ⟨position, 0.0, 0.0⟩

def Motion.resting (time : Int) (p : Position α) : Motion α :=
  ⟨time, 0, .resting p.x, .resting p.y⟩

def Table.empty : Table α :=
  { known := ∅, rows := Vector.replicate 32 (.resting 0 ⟨0.0, 0.0⟩) }

def timeConstant : α :=
  0.010

/-- The weight of a measurement after `dt` seconds. -/
def gain (dt : α) : α :=
  dt / (timeConstant + dt)

/-- The motion along one axis after `dt` seconds.  The first measured velocity
is taken as it is and later ones are blended in; an order that follows the
acceleration treats that in the same way and moves the velocity by it. -/
def Axis.advance (order : Order) (measured : Nat) (dt position : α)
    (a : Axis α) : Axis α :=
  let velocity := (position - a.position) / dt
  if measured = 0 then { a with position := position, velocity := velocity }
  else
    match order with
    | .velocity =>
        { a with
          position := position
          velocity := a.velocity + (velocity - a.velocity) * gain dt }
    | .acceleration =>
        let measuredAcceleration := (velocity - a.velocity) / dt
        let acceleration :=
          if measured = 1 then measuredAcceleration
          else
            a.acceleration
              + (measuredAcceleration - a.acceleration) * gain dt
        { position := position
          velocity := a.velocity + acceleration * dt * gain dt
          acceleration := acceleration }

def Motion.advance (order : Order) (time : Int) (p : Position α)
    (m : Motion α) : Motion α :=
  let dt := Estimator.seconds (time - m.time)
  { time := time
    measured := min (m.measured + 1) order.degree
    x := m.x.advance order m.measured dt p.x
    y := m.y.advance order m.measured dt p.y }

/-- A pointer begins at rest.  A time that no word holds is refused, after the
position and the rest have been written. -/
def begin (id : PointerId) (time : Int) (p : Position α) (table : Table α) :
    Outcome (Table α) :=
  if fitsWord time then .done (table.put id (.resting time p))
  else
    .failed
      (table.put id { table.rows.get id with
        x := .resting p.x, y := .resting p.y })
      .timeBeyondWord

/-- One pointer's sample.  A pointer that is not known begins, and so does one
whose time does not advance. -/
def accept (order : Order) (id : PointerId) (time : Int) (p : Position α)
    (table : Table α) : Outcome (Table α) :=
  match table.motion? id with
  | none => begin id time p table
  | some m =>
      if time ≤ m.time then
        (begin id time p table).warn (.notAdvancing id time m.time)
      else if time - m.time < minElapsed then .done table
      else if fitsWord time then .done (table.put id (m.advance order time p))
      else .failed table .timeBeyondWord

/-- The samples of a movement, from the smallest id up, each read when its turn
comes. -/
def acceptAll (order : Order) (time : Reading α) :
    List (PointerId × Point α) → Table α → Outcome (Table α)
  | [], table => .done table
  | (id, point) :: rest, table =>
      Outcome.orFail time.toInt table fun now =>
        Outcome.orFail point.toPosition table fun p =>
          (accept order id now p table).andThen (acceptAll order time rest)

/-- A movement.  Afterwards its pointers are the known ones; a movement that
fails leaves the known pointers as they were, with the samples accepted so
far. -/
def add (order : Order) (time : Reading α) (ids : PointerSet)
    (points : List (Point α)) (table : Table α) : Outcome (Table α) :=
  if points.length = ids.card then
    let after := acceptAll order time (ids.toList.zip points) table
    { after with
      state :=
        if after.error.isNone then after.state.withKnown ids else after.state }
  else .failed table (.positionCount ids points.length)

def Axis.coefficients (order : Order) (a : Axis α) : Quartic α :=
  { Quartic.zero with
    c0 := a.position
    c1 := a.velocity
    c2 := match order with
      | .velocity => 0.0
      | .acceleration => a.acceleration / 2.0 }

def Motion.estimator (order : Order) (m : Motion α) : Estimator α :=
  { time := m.time
    degree := order.degree
    confidence := 1.0
    x := m.x.coefficients order
    y := m.y.coefficients order }

end Filter

end PointerMotion
