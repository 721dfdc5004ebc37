/-
Tables as comma separated text.  A quote at the start of a field opens it up
to the next lone quote; any other quote is an ordinary character.
-/

namespace PointerMotion

namespace Csv

/-- A row of fields. -/
abbrev Row := List String

/-- Where the reader stands. -/
inductive Place where
  | rowStart
  | fieldStart
  | field
  | quoted
  /-- after a quote in a quoted field, which may be the first of two -/
  | afterQuote
  deriving Repr, DecidableEq

/-- The state of the reader; what it collects has the latest entry first. -/
structure Reader where
  place : Place
  /-- whether the character before was a carriage return that ended a row -/
  afterReturn : Bool
  chars : List Char
  count : Nat
  fields : List String
  rows : List Row
  deriving Repr

namespace Reader

def start : Reader :=
  { place := .rowStart
    afterReturn := false
    chars := []
    count := 0
    fields := []
    rows := [] }

/-- A field can hold this many characters. -/
def maxField : Nat :=
  131072

def endField (r : Reader) : Reader :=
  { r with
    place := .fieldStart
    chars := []
    count := 0
    fields := String.ofList r.chars.reverse :: r.fields }

def endRow (r : Reader) : Reader :=
  { r with
    place := .rowStart
    fields := []
    rows := r.fields.reverse :: r.rows }

/-- Adds a character to the field, unless it is full. -/
def addChar (r : Reader) (place : Place) (c : Char) : Option Reader :=
  if r.count < maxField then
    some { r with place := place, chars := c :: r.chars, count := r.count + 1 }
  else none

def beginField (r : Reader) (c : Char) : Option Reader :=
  if c == '"' then some { r with place := .quoted }
  else if c == ',' then some r.endField
  else r.addChar .field c

/-- Takes one character; a field that is too long stops the reader. -/
def step (r : Reader) (c : Char) : Option Reader :=
  let wasReturn := r.afterReturn
  let r := { r with afterReturn := false }
  let endsLine := c == '\n' || c == '\r'
  let ended (r : Reader) : Reader := { r.endRow with afterReturn := c == '\r' }
  match r.place with
  | .rowStart =>
      if wasReturn && c == '\n' then some r
      else if endsLine then some (ended r)
      else r.beginField c
  | .fieldStart => if endsLine then some (ended r.endField) else r.beginField c
  | .field =>
      if endsLine then some (ended r.endField)
      else if c == ',' then some r.endField
      else r.addChar .field c
  | .quoted =>
      if c == '"' then some { r with place := .afterQuote }
      else r.addChar .quoted c
  | .afterQuote =>
      if c == '"' then r.addChar .quoted c
      else if endsLine then some (ended r.endField)
      else if c == ',' then some r.endField
      else r.addChar .field c

/-- Takes the end of the text, which ends the row that is open. -/
def finish (r : Reader) : Reader :=
  if r.place = .rowStart then r else r.endField.endRow

end Reader

/-- The rows of a text, and whether they are all of it. -/
structure Table where
  rows : List Row
  complete : Bool
  deriving Repr, DecidableEq

/-- Takes characters until they end or the reader stops. -/
def scan (r : Reader) : List Char → Reader × Bool
  | [] => (r, true)
  | c :: rest =>
      match r.step c with
      | some next => scan next rest
      | none => (r, false)

def read (text : List Char) : Table :=
  match scan Reader.start text with
  | (r, true) => ⟨r.finish.rows.reverse, true⟩
  | (r, false) => ⟨r.rows.reverse, false⟩

/-- The rows of a text that have ended, whatever comes after them. -/
def readEnded (text : List Char) : Table :=
  let (r, complete) := scan Reader.start text
  ⟨r.rows.reverse, complete⟩

/-- The lines of a text that have ended.  A carriage return at the very end does
not count, since a line feed may follow it. -/
def endedLines (text : List Char) : List Char :=
  let ended (c : Char) : Bool := c == '\n' || c == '\r'
  let reversed :=
    match text.reverse with
    | '\r' :: rest => rest
    | reversed => reversed
  (reversed.dropWhile fun c => !ended c).reverse

end Csv

end PointerMotion
