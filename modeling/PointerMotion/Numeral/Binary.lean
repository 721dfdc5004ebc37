/-
Doubles as exact binary numbers: a sign, a whole significand and a power of
two, through which every conversion of the library goes.
-/

namespace PointerMotion

/-- A finite double read exactly: `± significand * 2 ^ exponent`. -/
structure Binary where
  negative : Bool
  significand : Nat
  exponent : Int
  deriving Repr, DecidableEq

namespace Binary

/-- The leading bit of a full significand, which patterns leave out. -/
def leadingBit : Nat :=
  1 <<< 52

/-- Whether the sign bit of a double is set, for zeros and non-numbers too. -/
def signBit (x : Float) : Bool :=
  x.toBits.toNat >>> 63 == 1

/-- The exact value of a double, or nothing when it is not finite. -/
def ofFloat? (x : Float) : Option Binary :=
  let fraction : Nat := x.toBits.toNat % leadingBit
  let field : Nat := x.toBits.toNat / leadingBit % 2048
  if field = 2047 then none
  else if field = 0 then some ⟨signBit x, fraction, -1074⟩
  else some ⟨signBit x, leadingBit + fraction, (field : Int) - 1075⟩

/-- Numerator of the magnitude over `denominator`. -/
def numerator (b : Binary) : Nat :=
  b.significand <<< b.exponent.toNat

/-- Denominator of the magnitude, a power of two. -/
def denominator (b : Binary) : Nat :=
  1 <<< (-b.exponent).toNat

/-- The whole part, rounding toward zero. -/
def truncate (b : Binary) : Int :=
  let whole : Nat := b.numerator / b.denominator
  if b.negative then -whole else whole

/-- The whole number nearest to a quotient; a half goes to the even
neighbour. -/
def roundHalfEven (num den : Nat) : Nat :=
  let whole := num / den
  let twice := 2 * (num % den)
  if twice < den then whole
  else if den < twice then whole + 1
  else whole + whole % 2

/-- The pattern of a double from its sign and the pattern of its magnitude. -/
def assemble (negative : Bool) (magnitude : Nat) : Float :=
  Float.ofBits (UInt64.ofNat (magnitude + if negative then 1 <<< 63 else 0))

def infinityPattern : Nat :=
  2047 * leadingBit

/-- Largest power of two not above a positive quotient. -/
def leadingPower (num den : Nat) : Int :=
  let guess : Int := (num.log2 : Int) - den.log2
  if num <<< (-guess).toNat < den <<< guess.toNat then guess - 1 else guess

/-- The double nearest to `± num / den`, a half going to the even neighbour and
an excess over the largest double to infinity.  The rounded significand and the
exponent field add up to the pattern, so a significand that rounds up to the
next power of two carries into the exponent by itself. -/
def nearest (negative : Bool) (num den : Nat) : Float :=
  if num = 0 then assemble negative 0
  else
    let exponent := max (leadingPower num den - 52) (-1074)
    let significand :=
      roundHalfEven (num <<< (-exponent).toNat) (den <<< exponent.toNat)
    let pattern := (exponent + 1074).toNat * leadingBit + significand
    assemble negative (min pattern infinityPattern)

/-- The double nearest to a whole number. -/
def ofInt (n : Int) : Float :=
  nearest (n < 0) n.natAbs 1

/-- Whether the double nearest to a whole number is finite. -/
def holdsInt (n : Int) : Bool :=
  n.natAbs < (1 <<< 1024) - (1 <<< 970)

end Binary

end PointerMotion
