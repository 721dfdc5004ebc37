/-
The shortest decimal numeral that reads back as a given double: the nearest
point of the first decimal grid that meets the double's rounding interval.
-/
import PointerMotion.Numeral.Decimal

namespace PointerMotion

namespace Shortest

/-- The interval of reals that round to a positive double, in quarters of its
last place: the gap below a power of two is half as wide, and the ends belong to
the interval when the significand is even. -/
structure Interval where
  low : Nat
  high : Nat
  closed : Bool
  quarter : Int
  deriving Repr

def interval (b : Binary) : Interval :=
  let narrow := b.significand == Binary.leadingBit && b.exponent > -1074
  { low := if narrow then 4 * b.significand - 1 else 4 * b.significand - 2
    high := 4 * b.significand + 2
    closed := b.significand % 2 == 0
    quarter := b.exponent - 2 }

/-- Whether `digits * 10 ^ exponent` lies in an interval. -/
def Interval.covers (i : Interval) (digits : Nat) (exponent : Int) : Bool :=
  let point := (digits * Decimal.tenTo exponent.toNat) <<< (-i.quarter).toNat
  let unit := Decimal.tenTo (-exponent).toNat <<< i.quarter.toNat
  if i.closed then i.low * unit ≤ point && point ≤ i.high * unit
  else i.low * unit < point && point < i.high * unit

/-- The decimal of `count` digits that reads back as `b`, if the grid has
one. -/
def onGrid? (b : Binary) (count : Nat) : Option Decimal :=
  let exponent :=
    Decimal.leadingPower b.numerator b.denominator - ((count : Int) - 1)
  let num := b.numerator * Decimal.tenTo (-exponent).toNat
  let den := b.denominator * Decimal.tenTo exponent.toNat
  let below := num / den
  let near := Binary.roundHalfEven num den
  let far := if near = below then below + 1 else below
  if (interval b).covers near exponent then some ⟨b.negative, near, exponent⟩
  else if (interval b).covers far exponent then some ⟨b.negative, far, exponent⟩
  else none

/-- The shortest decimal of a nonzero double; seventeen digits always
suffice. -/
def decimal (b : Binary) : Decimal :=
  ((List.range 17).findSome? fun n => onGrid? b (n + 1)).getD
    (Decimal.significant 17 b)

/-- How shortest numerals are laid out. -/
structure Layout where
  /-- least power of ten of the leading digit that is written positionally -/
  positionalFrom : Int
  /-- first power of ten that is written with an exponent again -/
  positionalBelow : Int
  /-- least number of digits in an exponent -/
  exponentDigits : Nat

/-- Messages and settings files write a number positionally from `1e-4` up to
but not including `1e16`, and give exponents a sign and at least two digits. -/
def layout : Layout :=
  { positionalFrom := -4, positionalBelow := 16, exponentDigits := 2 }

/-- A decimal point put after the first `count` digits, with zeros as needed. -/
def pointAfter (count : Int) (digits : List Char) : String :=
  let zeros (n : Int) := List.replicate n.toNat '0'
  let whole := zeros (1 - count) ++
    (digits ++ zeros (count - digits.length)).take count.toNat
  let rest := zeros (-count) ++ digits.drop count.toNat
  let whole := if count ≤ 0 then ['0'] else whole
  String.ofList whole ++ "." ++
    (if rest.isEmpty then "0" else String.ofList rest)

/-- The text of a nonzero decimal in a layout. -/
def render (l : Layout) (d : Decimal) : String :=
  let sign := if d.negative then "-" else ""
  let all := Decimal.digitList d.digits
  let power := d.exponent + ((all.length : Int) - 1)
  let digits := Decimal.dropTrailingZeros all
  if l.positionalFrom ≤ power ∧ power < l.positionalBelow then
    sign ++ pointAfter (power + 1) digits
  else
    let tail := digits.drop 1
    let mantissa := String.ofList (digits.take 1)
      ++ if tail.isEmpty then "" else "." ++ String.ofList tail
    let exponent := Decimal.digitList power.natAbs
    let padded :=
      List.replicate (l.exponentDigits - exponent.length) '0' ++ exponent
    sign ++ mantissa ++ "e" ++ (if power < 0 then "-" else "+") ++
      String.ofList padded

def text (x : Float) : String :=
  match Binary.ofFloat? x with
  | none => Decimal.notFiniteText x
  | some b =>
      if b.significand = 0 then (if b.negative then "-0.0" else "0.0")
      else render layout (decimal b)

end Shortest

end PointerMotion
