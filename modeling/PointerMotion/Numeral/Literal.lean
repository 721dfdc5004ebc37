/-
Numerals as they are written by hand, with blanks around them, the digits of
any script, and single underscores between digits.
-/
import PointerMotion.Numeral.Decimal
import PointerMotion.Text.Blank
import PointerMotion.Text.Digit

namespace PointerMotion

namespace Literal

def digitsValue (digits : List Char) : Nat :=
  digits.foldl (fun value c => 10 * value + (c.toNat - '0'.toNat)) 0

def isAsciiDigit (c : Char) : Bool :=
  '0' ≤ c && c ≤ '9'

/-- A numeral with the digits of every script in ASCII; what fits in none
becomes `?`. -/
def asciiForm (text : List Char) : List Char :=
  text.map fun c =>
    if c.toNat < 127 then c
    else
      match Text.digitValue? c with
      | some value => Char.ofNat ('0'.toNat + value)
      | none => '?'

/-- A numeral without the blanks around it, in ASCII. -/
def trimmed (text : String) : List Char :=
  asciiForm (Text.stripWhere Text.isNumeralBlank text.toList)

/-- Takes a sign off the front; the answer tells whether it was a minus. -/
def takeSign : List Char → Bool × List Char
  | '-' :: rest => (true, rest)
  | '+' :: rest => (false, rest)
  | text => (false, text)

def takeDigits (text : List Char) : List Char × List Char :=
  (text.takeWhile isAsciiDigit, text.dropWhile isAsciiDigit)

/-- The numeral without its underscores, if each stands between two digits.  The
flag tells whether the character before was a digit. -/
def dropUnderscores (afterDigit : Bool) : List Char → Option (List Char)
  | [] => some []
  | ['_'] => none
  | '_' :: next :: rest =>
      if afterDigit && isAsciiDigit next then
        (dropUnderscores true rest).map (next :: ·)
      else none
  | c :: rest => (dropUnderscores (isAsciiDigit c) rest).map (c :: ·)

inductive WholeError where
  | malformed
  /-- more digits than are read -/
  | tooLong (digits : Nat)
  deriving Repr, DecidableEq

/-- Whole numbers of more digits than this are not read. -/
def maxDigits : Nat :=
  4300

/-- The whole number that a text denotes. -/
def whole? (text : String) : Except WholeError Int :=
  let (negative, unsigned) := takeSign (trimmed text)
  let numeral := unsigned.takeWhile fun c => isAsciiDigit c || c == '_'
  match dropUnderscores false numeral with
  | none => .error .malformed
  | some digits =>
      if maxDigits < digits.length then .error (.tooLong digits.length)
      else if digits.isEmpty || numeral.length ≠ unsigned.length then
        .error .malformed
      else .ok (if negative then -digitsValue digits else digitsValue digits)

/-- The double nearest to `± digits * 10 ^ exponent`.  Beyond the powers of ten
of the largest double and of half the smallest one, the digits do not matter. -/
def nearestDouble (negative : Bool) (digits : Nat) (exponent : Int) : Float :=
  let top := ((Decimal.digitList digits).length : Int) + exponent
  if digits = 0 then Binary.assemble negative 0
  else if 310 < top then Binary.assemble negative Binary.infinityPattern
  else if top < -330 then Binary.assemble negative 0
  else
    Binary.nearest negative (digits * Decimal.tenTo exponent.toNat)
      (Decimal.tenTo (-exponent).toNat)

/-- The exponent part of a decimal: nothing, or a mark, a sign and digits. -/
def exponent? : List Char → Option Int
  | [] => some 0
  | mark :: rest =>
      if mark == 'e' || mark == 'E' then
        let (negative, unsigned) := takeSign rest
        let (digits, left) := takeDigits unsigned
        if digits.isEmpty || !left.isEmpty then none
        else some (if negative then -digitsValue digits else digitsValue digits)
      else none

/-- The double that an unsigned decimal in ASCII denotes. -/
def decimal? (negative : Bool) (text : List Char) : Option Float :=
  let (whole, rest) := takeDigits text
  let (decimals, rest) :=
    match rest with
    | '.' :: rest => takeDigits rest
    | rest => ([], rest)
  if whole.isEmpty && decimals.isEmpty then none
  else
    (exponent? rest).map fun exponent =>
      nearestDouble negative (digitsValue (whole ++ decimals))
        (exponent - decimals.length)

def word? (negative : Bool) (text : List Char) : Option Float :=
  let word := String.ofList (text.map Char.toLower)
  if word == "inf" || word == "infinity" then
    some (Binary.assemble negative Binary.infinityPattern)
  else if word == "nan" then some (0.0 / 0.0)
  else none

def double? (text : String) : Option Float :=
  (dropUnderscores false (trimmed text)).bind fun numeral =>
    let (negative, unsigned) := takeSign numeral
    (word? negative unsigned).orElse fun _ => decimal? negative unsigned

end Literal

end PointerMotion
