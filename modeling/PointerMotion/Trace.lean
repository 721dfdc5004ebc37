/-
Recorded traces: a table with a row for each pointer at each time.
Neighbouring rows of one time make one sample, and of two rows of one pointer
the later counts.
-/
import PointerMotion.Csv
import PointerMotion.Movement
import PointerMotion.Numeral.Literal
import PointerMotion.Text.Quoted
import PointerMotion.Text.Utf8

namespace PointerMotion

namespace Trace

/-- A row of a trace. -/
structure Entry where
  time : Int
  id : PointerId
  position : Position Float

inductive RowError where
  | missingField
  | notWhole (text : String)
  | tooManyDigits (digits : Nat)
  | notNumber (text : String)
  | pointer (cause : PointerError)
  deriving Repr, DecidableEq

def RowError.message : RowError → String
  | .missingField => "list index out of range"
  | .notWhole text =>
    "invalid literal for int() with base 10: "
      ++ String.ofList ((Text.quoted text).toList.take 200)
  | .tooManyDigits digits =>
    "Exceeds the limit (4300 digits) for integer string conversion: value has "
      ++ Decimal.natText digits
      ++ " digits; use sys.set_int_max_str_digits() to increase the limit"
  | .notNumber text => "could not convert string to float: " ++ Text.quoted text
  | .pointer cause => cause.message

inductive Error where
  /-- a malformed row, counted from one -/
  | badRow (row : Nat) (cause : RowError)
  /-- bytes that are no text -/
  | notText
  /-- a field that is too long -/
  | fieldTooLong
  deriving Repr, DecidableEq

def Error.message (file : String) : Error → String
  | .badRow row cause =>
      file ++ ":" ++ Decimal.natText row ++ ": " ++ cause.message
  | .notText => file ++ " is not text"
  | .fieldTooLong => file ++ " has a field that is too long"

def wholeField (text : String) : Except RowError Int :=
  match Literal.whole? text with
  | .ok n => .ok n
  | .error .malformed => .error (.notWhole text)
  | .error (.tooLong digits) => .error (.tooManyDigits digits)

def coordinateField (text : String) : Except RowError Float :=
  match Literal.double? text with
  | some x => .ok x
  | none => .error (.notNumber text)

def field (row : Csv.Row) (i : Nat) : Except RowError String :=
  match row[i]? with
  | some text => .ok text
  | none => .error .missingField

/-- Reads a row: the time, the id, the coordinates, and then the range of the
id. -/
def readRow (row : Csv.Row) : Except RowError Entry := do
  let time ← (field row 0).bind wholeField
  let id ← (field row 1).bind wholeField
  let x ← (field row 2).bind coordinateField
  let y ← (field row 3).bind coordinateField
  let id ← (PointerId.ofInt? id).mapError .pointer
  return ⟨time, id, ⟨x, y⟩⟩

/-- Whether a field looks like the start of a number: digits behind any
dashes. -/
def looksNumeric (text : String) : Bool :=
  let digits := (Text.stripWhere Text.isBlank text.toList).dropWhile (· == '-')
  !digits.isEmpty && digits.all Text.isDigit

/-- Whether a row, counted from one, holds no data. -/
def isSkipped (number : Nat) (row : Csv.Row) : Bool :=
  match row with
  | [] => true
  | lead :: _ => lead.startsWith "#" || (number == 1 && !looksNumeric lead)

/-- The rows with data, with their numbers. -/
def dataRows (rows : List Csv.Row) : List (Nat × Csv.Row) :=
  (rows.mapIdx fun i row => (i + 1, row)).filter fun (number, row) =>
    !isSkipped number row

/-- Reads the rows with data, up to the first that is malformed. -/
def readRows (rows : List Csv.Row) : Except Error (List Entry) :=
  (dataRows rows).mapM fun (number, row) =>
    (readRow row).mapError (.badRow number)

/-- The entries of one time, by ascending id. -/
structure Group where
  time : Int
  entries : List (PointerId × Position Float)

/-- Puts in a position that comes before those that are in already. -/
def addEarlier (id : PointerId) (p : Position Float) :
    List (PointerId × Position Float) → List (PointerId × Position Float)
  | [] => [(id, p)]
  | (i, q) :: rest =>
      if id < i then (id, p) :: (i, q) :: rest
      else if id = i then (i, q) :: rest
      else (i, q) :: addEarlier id p rest

def groups : List Entry → List Group
  | [] => []
  | e :: rest =>
      match groups rest with
      | [] => [⟨e.time, [(e.id, e.position)]⟩]
      | g :: later =>
          if g.time = e.time then
            { g with entries := addEarlier e.id e.position g.entries } :: later
          else ⟨e.time, [(e.id, e.position)]⟩ :: g :: later

/-- A sample of a trace: positions by ascending id. -/
structure Sample where
  time : Int
  ids : PointerSet
  positions : List (Position Float)

def Group.sample (g : Group) : Sample :=
  { time := g.time
    ids := PointerSet.ofList (g.entries.map (·.1))
    positions := g.entries.map (·.2) }

def ofRows (rows : List Csv.Row) : Except Error (List Sample) :=
  (readRows rows).map fun entries => (groups entries).map Group.sample

/-- The samples of a table that may be incomplete.  A malformed row is reported
before what makes the table incomplete. -/
def ofTable (table : Csv.Table) : Except Error (List Sample) := do
  let samples ← ofRows table.rows
  if table.complete then return samples else .error .fieldTooLong

/-- The samples of a file.  When its bytes are no text, the lines that ended
before the spoiled part are still looked at for malformed rows. -/
def ofBytes (bytes : List UInt8) : Except Error (List Sample) :=
  let readout := Utf8.read bytes
  if readout.complete then ofTable (Csv.read readout.text)
  else (ofTable (Csv.readEnded (Csv.endedLines readout.text))).bind fun _ =>
    .error .notText

end Trace

end PointerMotion
