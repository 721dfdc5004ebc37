/-
Why a movement, an event or a question is refused, and the wording of it.
-/
import PointerMotion.Scalar
import PointerMotion.PointerSet
import PointerMotion.Numeral.Decimal

namespace PointerMotion

inductive InputError where
  /-- a number that is no pointer id, or a mask that is too wide -/
  | pointer (cause : PointerError)
  /-- a movement with more or fewer positions than pointers -/
  | positionCount (ids : PointerSet) (given : Nat)
  /-- a position with fewer than two coordinates -/
  | missingCoordinate
  /-- an event position that is not a pair of coordinates -/
  | notAPair
  /-- a number that has no counterpart of the kind that is needed -/
  | conversion (cause : ConversionError)
  /-- a time outside the signed words in which the filter keeps its times -/
  | timeBeyondWord
  /-- an event that names an action pointer and has no pointers -/
  | noActionPointer
  deriving Repr, DecidableEq

/-- Hexadecimal text of an integer, with the sign before the radix mark. -/
def hexText (n : Int) : String :=
  (if n < 0 then "-0x" else "0x") ++ String.ofList (Nat.toDigits 16 n.natAbs)

namespace PointerSet

def listText (ids : List Int) : String :=
  "[" ++ ", ".intercalate (ids.map Decimal.intText) ++ "]"

def text (s : PointerSet) : String :=
  "PointerIdBits(" ++ listText (s.toList.map fun id => (id.val : Int)) ++ ")"

end PointerSet

def PointerError.message : PointerError → String
  | .idOutOfRange id =>
      "Pointer id " ++ Decimal.intText id ++ " out of range [0, 31]"
  | .maskTooWide mask =>
      "Pointer id mask " ++ hexText mask ++ " does not fit in 32 bits"

def ConversionError.message : ConversionError → String
  | .notANumber => "a value that is no number cannot be converted"
  | .outOfRange => "a number is too large to be converted"

def InputError.message : InputError → String
  | .pointer cause => cause.message
  | .positionCount ids given =>
      "Expected " ++ Decimal.natText ids.card ++ " positions for " ++ ids.text
        ++ ", got " ++ Decimal.natText given
  | .missingCoordinate => "a position needs two coordinates"
  | .notAPair => "an event position must be a pair of coordinates"
  | .conversion cause => cause.message
  | .timeBeyondWord => "a time does not fit in a signed word of 64 bits"
  | .noActionPointer => "the event has no pointers to act on"

end PointerMotion
