/-
Decimal numerals of doubles, computed from the exact binary value, in an exact,
a rounded and a fixed form.
-/
import PointerMotion.Numeral.Binary

namespace PointerMotion

/-- A decimal value `± digits * 10 ^ exponent`. -/
structure Decimal where
  negative : Bool
  digits : Nat
  exponent : Int
  deriving Repr, DecidableEq

namespace Decimal

def tenTo (zeros : Nat) : Nat :=
  Nat.pow 10 zeros

/-- The decimal digits of a natural number, most significant first. -/
def digitList (n : Nat) : List Char :=
  Nat.toDigits 10 n

def natText (n : Nat) : String :=
  String.ofList (digitList n)

def intText (n : Int) : String :=
  if n < 0 then "-" ++ natText n.natAbs else natText n.natAbs

/-- The power of ten of the leading digit of a positive quotient. -/
def leadingPower (num den : Nat) : Int :=
  let guess : Int := ((digitList num).length : Int) - (digitList den).length
  if num * tenTo (-guess).toNat < den * tenTo guess.toNat then guess - 1
  else guess

/-- A nonzero value rounded to `count` significant digits. -/
def significant (count : Nat) (b : Binary) : Decimal :=
  let exponent := leadingPower b.numerator b.denominator - ((count : Int) - 1)
  let digits := Binary.roundHalfEven (b.numerator * tenTo (-exponent).toNat)
    (b.denominator * tenTo exponent.toNat)
  ⟨b.negative, digits, exponent⟩

def withPlaces (places : Nat) (b : Binary) : Decimal :=
  ⟨b.negative, Binary.roundHalfEven (b.numerator * tenTo places) b.denominator,
    -(places : Int)⟩

def dropTrailingZeros (digits : List Char) : List Char :=
  (digits.reverse.dropWhile (· == '0')).reverse

/-- Scientific text `[-]d[.ddd]e<exponent>`: one digit before the point, no
trailing zeros, and no point when nothing follows it.  A zero keeps its sign. -/
def scientific (d : Decimal) : String :=
  let sign := if d.negative then "-" else ""
  let digits := digitList d.digits
  let exponent := d.exponent + ((digits.length : Int) - 1)
  match dropTrailingZeros digits with
  | [] => sign ++ "0"
  | [lead] => sign ++ String.singleton lead ++ "e" ++ intText exponent
  | lead :: rest =>
      sign ++ String.singleton lead ++ "." ++ String.ofList rest ++ "e"
        ++ intText exponent

/-- Positional text with exactly `places` decimals. -/
def positional (places : Nat) (d : Decimal) : String :=
  let sign := if d.negative then "-" else ""
  let digits := digitList d.digits
  let padded := List.replicate (places + 1 - digits.length) '0' ++ digits
  let whole := padded.take (padded.length - places)
  let decimals := padded.drop (padded.length - places)
  sign ++ String.ofList whole ++ "." ++ String.ofList decimals

/-- The words for a double that is not finite. -/
def notFiniteText (x : Float) : String :=
  if x == x then (if Binary.signBit x then "-inf" else "inf") else "nan"

/-- The exact form: seventeen significant digits, zeros with their sign. -/
def exactText (x : Float) : String :=
  match Binary.ofFloat? x with
  | none => notFiniteText x
  | some b =>
      if b.significand = 0 then scientific ⟨b.negative, 0, 0⟩
      else scientific (significant 17 b)

/-- The rounded form of a quantity whose unit calls for `6 - scale` decimals:
below `10 ^ (3 + scale)` that many decimals, above it ten significant digits.
Zero is written without a sign. -/
def roundedText (scale : Nat) (x : Float) : String :=
  match Binary.ofFloat? x with
  | none => notFiniteText x
  | some b =>
      let rounded :=
        if b.numerator < b.denominator * tenTo (3 + scale) then
          withPlaces (6 - scale) b
        else significant 10 b
      if rounded.digits = 0 then "0" else scientific rounded

/-- The table form: three decimals, zeros with their sign. -/
def tableText (x : Float) : String :=
  match Binary.ofFloat? x with
  | none => notFiniteText x
  | some b => positional 3 (withPlaces 3 b)

end Decimal

end PointerMotion
