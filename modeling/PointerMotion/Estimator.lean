/-
Estimators: a polynomial of one pointer's motion, whose coefficient `k`
multiplies the `k`-th power of the seconds since the time base.
-/
import PointerMotion.Movement

namespace PointerMotion

/-- Coefficients of a polynomial of degree at most four, constant term first. -/
structure Quartic (α : Type) where
  c0 : α
  c1 : α
  c2 : α
  c3 : α
  c4 : α
  deriving Repr, DecidableEq

namespace Quartic

variable {α : Type}

def toList (q : Quartic α) : List α :=
  [q.c0, q.c1, q.c2, q.c3, q.c4]

section Arithmetic

variable [Scalar α]

def zero : Quartic α :=
  ⟨0.0, 0.0, 0.0, 0.0, 0.0⟩

def ofList (coefficients : List α) : Quartic α :=
  { c0 := coefficients.getD 0 0.0
    c1 := coefficients.getD 1 0.0
    c2 := coefficients.getD 2 0.0
    c3 := coefficients.getD 3 0.0
    c4 := coefficients.getD 4 0.0 }

/-- The value at `t`, with `t ^ 0 = 1` throughout. -/
def value (q : Quartic α) (t : α) : α :=
  let t2 := t * t
  let t3 := t2 * t
  let t4 := t3 * t
  q.c0 * 1.0 + q.c1 * t + q.c2 * t2 + q.c3 * t3 + q.c4 * t4

def slope (q : Quartic α) (t : α) : α :=
  let t2 := t * t
  let t3 := t2 * t
  q.c1 * 1.0 + q.c2 * (2.0 * t) + q.c3 * (3.0 * t2) + q.c4 * (4.0 * t3)

/-- Equality of the coefficients as numbers. -/
def same (p q : Quartic α) : Bool :=
  (p.toList.zip q.toList).all fun pair => Scalar.same pair.1 pair.2

end Arithmetic

end Quartic

/-- The model of one pointer's motion around `time`, in nanoseconds. -/
structure Estimator (α : Type) where
  time : Int
  degree : Int
  confidence : α
  x : Quartic α
  y : Quartic α
  deriving Repr, DecidableEq

namespace Estimator

variable {α : Type} [Scalar α]

def secondsPerNano : α :=
  1e-9

def seconds (nanos : Int) : α :=
  Scalar.ofInt nanos * secondsPerNano

/-- The estimator that knows nothing. -/
def cleared : Estimator α :=
  { time := 0
    degree := 0
    confidence := 0.0
    x := Quartic.zero
    y := Quartic.zero }

def velocity (e : Estimator α) : Position α :=
  ⟨e.x.c1, e.y.c1⟩

/-- The seconds from the time base to a time, if scalars reach that far. -/
def elapsed (e : Estimator α) (time : Int) : Except InputError α :=
  ((Scalar.ofInt? (time - e.time)).mapError .conversion).map
    (· * secondsPerNano)

def positionAt (e : Estimator α) (time : Int) :
    Except InputError (Position α) :=
  (e.elapsed time).map fun t => ⟨e.x.value t, e.y.value t⟩

def velocityAt (e : Estimator α) (time : Int) :
    Except InputError (Position α) :=
  (e.elapsed time).map fun t => ⟨e.x.slope t, e.y.slope t⟩

def same (e f : Estimator α) : Bool :=
  e.time == f.time && e.degree == f.degree &&
    Scalar.same e.confidence f.confidence
    && e.x.same f.x && e.y.same f.y

end Estimator

end PointerMotion
