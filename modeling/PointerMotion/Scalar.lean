/-
The arithmetic that the estimators run on.  The class asks for operations and
for no laws, so what is proved over every class of scalars holds whatever the
operations round to.
-/
import PointerMotion.Numeral.Binary

namespace PointerMotion

inductive ConversionError where
  /-- it is no number at all -/
  | notANumber
  /-- it is infinite, or beyond what the other kind can hold -/
  | outOfRange
  deriving Repr, DecidableEq

/-- The operations that the estimators use. -/
class Scalar (α : Type) extends Add α, Sub α, Mul α, Div α, Neg α,
    OfScientific α where
  /-- magnitude -/
  abs : α → α
  /-- square root of a number that is not negative -/
  sqrt : α → α
  /-- the magnitude of the first with the sign of the second -/
  copySign : α → α → α
  /-- strictly less as numbers -/
  less : α → α → Bool
  /-- equal as numbers; a value that is no number differs from itself -/
  same : α → α → Bool
  /-- the scalar nearest to a whole number -/
  ofInt : Int → α
  /-- whether a whole number lies in the range of the scalars -/
  holdsInt : Int → Bool
  /-- the whole part, rounding toward zero -/
  truncate : α → Except ConversionError Int

-- a type that has division and decimals of its own is written with those
attribute [instance (50)] Scalar.toDiv Scalar.toOfScientific

namespace Scalar

variable {α : Type} [Scalar α]

/-- The scalar of a whole number in range. -/
def ofInt? (n : Int) : Except ConversionError α :=
  if Scalar.holdsInt (α := α) n then .ok (ofInt n) else .error .outOfRange

end Scalar

/-- The whole part of a double; infinities are out of range. -/
def truncateDouble (x : Float) : Except ConversionError Int :=
  match Binary.ofFloat? x with
  | some b => .ok b.truncate
  | none => if x == x then .error .outOfRange else .error .notANumber

/-- The magnitude of one double with the sign bit of another. -/
def copySignDouble (magnitude sign : Float) : Float :=
  if Binary.signBit sign then -magnitude.abs else magnitude.abs

instance : Scalar Float where
  abs := Float.abs
  sqrt := Float.sqrt
  copySign := copySignDouble
  less := fun x y => x < y
  same := fun x y => x == y
  ofInt := Binary.ofInt
  holdsInt := Binary.holdsInt
  truncate := truncateDouble

end PointerMotion
