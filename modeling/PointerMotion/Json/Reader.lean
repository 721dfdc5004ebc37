/-
Reading JSON text, by a machine that takes one character at a time and keeps
the arrays and objects that are open.
-/
import PointerMotion.Json
import PointerMotion.Numeral.Literal

namespace PointerMotion

namespace Json

inductive ReadError where
  | malformed
  /-- a whole number of more digits than are read -/
  | tooManyDigits
  deriving Repr, DecidableEq

/-- An array or object that is still open, its latest entries first. -/
inductive Frame where
  | array (items : List Json)
  | object (fields : List (String × Json)) (key : String)

/-- What may come next. -/
inductive Expected where
  | value
  | valueOrEnd
  | key
  | keyOrEnd
  | colon
  | separator
  | nothing
  deriving DecidableEq

/-- How far the escape in a string has been read. -/
inductive Escape where
  | none
  | started
  | code (digits : List Char)

/-- The string or word being read, its latest characters first. -/
inductive Lexeme where
  | none
  | string (chars : List Char) (escape : Escape) (surrogate : Option Nat)
  | word (chars : List Char)

/-- The state of the reader. -/
structure Reader where
  frames : List Frame
  expected : Expected
  lexeme : Lexeme
  result : Option Json

namespace Reader

def start : Reader :=
  { frames := [], expected := .value, lexeme := .none, result := none }

/-- Whether a character may stand between the parts of a value. -/
def isSpace (c : Char) : Bool :=
  c == ' ' || c == '\t' || c == '\n' || c == '\r'

/-- Whether a character can belong to a number or a literal name. -/
def isWordChar (c : Char) : Bool :=
  c.isAlphanum || c == '+' || c == '-' || c == '.'

/-- Puts a complete value where it belongs. -/
def feed (r : Reader) (value : Json) : Except ReadError Reader :=
  if r.expected = .value ∨ r.expected = .valueOrEnd then
    match r.frames with
    | [] => .ok { r with expected := .nothing, result := some value }
    | .array items :: rest =>
        .ok
          { r with
            frames := .array (value :: items) :: rest
            expected := .separator }
    | .object fields key :: rest =>
        .ok
          { r with
            frames := .object ((key, value) :: fields) "" :: rest
            expected := .separator }
  else .error .malformed

/-- Puts a complete string where it belongs: it is a key or a value. -/
def feedString (r : Reader) (text : String) : Except ReadError Reader :=
  if r.expected = .key ∨ r.expected = .keyOrEnd then
    match r.frames with
    | .object fields _ :: rest =>
        .ok { r with frames := .object fields text :: rest, expected := .colon }
    | _ => .error .malformed
  else r.feed (.string text)

/-- Whether a text is a whole part of a number: digits without a leading
zero. -/
def isWholePart (digits : List Char) : Bool :=
  match digits with
  | [] => false
  | ['0'] => true
  | first :: _ => first != '0'

def number? (negative : Bool) (unsigned : List Char) : Except ReadError Json :=
  let (digits, rest) := Literal.takeDigits unsigned
  if !isWholePart digits then .error .malformed
  else if rest.isEmpty then
    if Literal.maxDigits < digits.length then .error .tooManyDigits
    else
      let value : Int := Literal.digitsValue digits
      .ok (.whole (if negative then -value else value))
  else
    let decimalsMissing :=
      match rest with
      | '.' :: after => (Literal.takeDigits after).1.isEmpty
      | _ => false
    if decimalsMissing then .error .malformed
    else
      match Literal.decimal? negative unsigned with
      | some x => .ok (.double x)
      | none => .error .malformed

def word? (word : List Char) : Except ReadError Json :=
  match String.ofList word with
  | "null" => .ok .null
  | "true" => .ok (.bool true)
  | "false" => .ok (.bool false)
  | "NaN" => .ok (.double (0.0 / 0.0))
  | "Infinity" => .ok (.double (1.0 / 0.0))
  | "-Infinity" => .ok (.double (-1.0 / 0.0))
  | _ =>
      match word with
      | '-' :: unsigned => number? true unsigned
      | unsigned => number? false unsigned

/-- Takes a mark outside strings and words. -/
def mark (r : Reader) (c : Char) : Except ReadError Reader :=
  let opens := r.expected = .value ∨ r.expected = .valueOrEnd
  if isSpace c then .ok r
  else if c == '[' then
    if opens then
      .ok { r with frames := .array [] :: r.frames, expected := .valueOrEnd }
    else .error .malformed
  else if c == '\x7b' then
    if opens then
      .ok { r with frames := .object [] "" :: r.frames, expected := .keyOrEnd }
    else .error .malformed
  else if c == ']' then
    match r.frames with
    | .array items :: rest =>
        if r.expected = .separator ∨ r.expected = .valueOrEnd then
          { r with frames := rest, expected := .value }.feed
            (.array items.reverse)
        else .error .malformed
    | _ => .error .malformed
  else if c == '\x7d' then
    match r.frames with
    | .object fields _ :: rest =>
        if r.expected = .separator ∨ r.expected = .keyOrEnd then
          { r with frames := rest, expected := .value }.feed
            (.object (putAll [] fields.reverse))
        else .error .malformed
    | _ => .error .malformed
  else if c == ',' then
    if r.expected = .separator then
      match r.frames with
      | .array _ :: _ => .ok { r with expected := .value }
      | .object _ _ :: _ => .ok { r with expected := .key }
      | [] => .error .malformed
    else .error .malformed
  else if c == ':' then
    if r.expected = .colon then .ok { r with expected := .value }
    else .error .malformed
  else if c == '"' then .ok { r with lexeme := .string [] .none none }
  else if isWordChar c then .ok { r with lexeme := .word [c] }
  else .error .malformed

/-- The characters of a string with a lone half of a pair replaced. -/
def flush (chars : List Char) (surrogate : Option Nat) : List Char :=
  match surrogate with
  | some _ => '\uFFFD' :: chars
  | none => chars

def hexValue? (c : Char) : Option Nat :=
  if '0' ≤ c && c ≤ '9' then some (c.toNat - '0'.toNat)
  else if 'a' ≤ c && c ≤ 'f' then some (c.toNat - 'a'.toNat + 10)
  else if 'A' ≤ c && c ≤ 'F' then some (c.toNat - 'A'.toNat + 10)
  else none

def hexNumber? (digits : List Char) : Option Nat :=
  digits.foldlM (fun value c => (hexValue? c).map (16 * value + ·)) 0

/-- The string with one more code of an escape; two halves of a pair make one
character. -/
def addCode (chars : List Char) (surrogate : Option Nat)
    (code : Nat) : Lexeme :=
  if 0xD800 ≤ code && code < 0xDC00 then
    .string (flush chars surrogate) .none (some code)
  else if 0xDC00 ≤ code && code < 0xE000 then
    match surrogate with
    | some high =>
        .string
          (Char.ofNat (0x10000 + (high - 0xD800) * 0x400 + (code - 0xDC00))
            :: chars)
          .none none
    | none => .string ('\uFFFD' :: chars) .none none
  else .string (Char.ofNat code :: flush chars surrogate) .none none

/-- The character that a one-letter escape stands for. -/
def escaped? : Char → Option Char
  | '"' => some '"'
  | '\\' => some '\\'
  | '/' => some '/'
  | 'b' => some '\x08'
  | 'f' => some '\x0c'
  | 'n' => some '\n'
  | 'r' => some '\r'
  | 't' => some '\t'
  | _ => none

/-- Takes a character inside a string. -/
def stringChar (r : Reader) (chars : List Char) (escape : Escape)
    (surrogate : Option Nat) (c : Char) : Except ReadError Reader :=
  match escape with
  | .none =>
      if c == '"' then
        { r with lexeme := .none }.feedString
          (String.ofList (flush chars surrogate).reverse)
      else if c == '\\' then
        .ok { r with lexeme := .string chars .started surrogate }
      else if c.toNat < 0x20 then .error .malformed
      else
        .ok
          { r with lexeme := .string (c :: flush chars surrogate) .none none }
  | .started =>
      if c == 'u' then
        .ok { r with lexeme := .string chars (.code []) surrogate }
      else
        match escaped? c with
        | some d =>
            .ok
              { r with
                lexeme := .string (d :: flush chars surrogate) .none none }
        | none => .error .malformed
  | .code digits =>
      let digits := digits ++ [c]
      match hexNumber? digits with
      | none => .error .malformed
      | some code =>
          if digits.length < 4 then
            .ok { r with lexeme := .string chars (.code digits) surrogate }
          else .ok { r with lexeme := addCode chars surrogate code }

def step (r : Reader) (c : Char) : Except ReadError Reader :=
  match r.lexeme with
  | .none => r.mark c
  | .string chars escape surrogate => r.stringChar chars escape surrogate c
  | .word chars =>
      if isWordChar c then .ok { r with lexeme := .word (c :: chars) }
      else do
        let value ← word? chars.reverse
        let r ← { r with lexeme := .none }.feed value
        r.mark c

def finish (r : Reader) : Except ReadError Json := do
  let r ←
    match r.lexeme with
    | .none => .ok r
    | .string _ _ _ => .error .malformed
    | .word chars => do
        let value ← word? chars.reverse
        { r with lexeme := .none }.feed value
  match r.expected, r.result with
  | .nothing, some value => .ok value
  | _, _ => .error .malformed

end Reader

def read (text : List Char) : Except ReadError Json := do
  let r ← text.foldlM Reader.step Reader.start
  r.finish

end Json

end PointerMotion
