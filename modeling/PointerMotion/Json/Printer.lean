/-
Writing JSON text, on one line or with every entry on a line of its own.
Text outside printable ASCII is escaped.
-/
import PointerMotion.Json
import PointerMotion.Numeral.Shortest
import PointerMotion.Text.Quoted

namespace PointerMotion

namespace Json

/-- A code of sixteen bits as an escape. -/
def codeEscape (code : Nat) : List Char :=
  '\\' :: 'u' :: Text.hexCode 4 code

def charText (c : Char) : List Char :=
  if c == '"' || c == '\\' then ['\\', c]
  else if c == '\n' then ['\\', 'n']
  else if c == '\r' then ['\\', 'r']
  else if c == '\t' then ['\\', 't']
  else if c == '\x08' then ['\\', 'b']
  else if c == '\x0c' then ['\\', 'f']
  else if 0x20 ≤ c.toNat && c.toNat < 0x7F then [c]
  else if c.toNat < 0x10000 then codeEscape c.toNat
  else
    let offset := c.toNat - 0x10000
    codeEscape (0xD800 + offset / 0x400) ++ codeEscape (0xDC00 + offset % 0x400)

def stringText (s : String) : String :=
  String.ofList ('"' :: s.toList.flatMap charText ++ ['"'])

def doubleText (x : Float) : String :=
  match Decimal.notFiniteText x, Binary.ofFloat? x with
  | _, some _ => Shortest.text x
  | "inf", none => "Infinity"
  | "-inf", none => "-Infinity"
  | _, none => "NaN"

/-- The layout of arrays and objects. -/
inductive Style where
  | oneLine
  | indented

/-- What stands before each entry at a depth, after the first bracket or a
comma. -/
def Style.lead (style : Style) (depth : Nat) : String :=
  match style with
  | oneLine => ""
  | indented => "\n" ++ String.ofList (List.replicate (2 * depth) ' ')

/-- What follows a comma on the same line. -/
def Style.gap : Style → String
  | oneLine => " "
  | indented => ""

mutual

/-- The text of a value at a depth. -/
def render (style : Style) (depth : Nat) : Json → String
  | null => "null"
  | bool true => "true"
  | bool false => "false"
  | whole n => Decimal.intText n
  | double x => doubleText x
  | string s => stringText s
  | array [] => "[]"
  | array (item :: rest) =>
      "[" ++ style.lead (depth + 1) ++ render style (depth + 1) item
        ++ renderItems style (depth + 1) rest ++ style.lead depth ++ "]"
  | object [] => "\x7b\x7d"
  | object ((key, value) :: rest) =>
      "\x7b" ++ style.lead (depth + 1) ++ stringText key ++ ": "
        ++ render style (depth + 1) value
        ++ renderFields style (depth + 1) rest ++ style.lead depth ++ "\x7d"

def renderItems (style : Style) (depth : Nat) : List Json → String
  | [] => ""
  | item :: rest =>
      "," ++ style.gap ++ style.lead depth ++ render style depth item
        ++ renderItems style depth rest

def renderFields (style : Style) (depth : Nat) : List (String × Json) → String
  | [] => ""
  | (key, value) :: rest =>
      "," ++ style.gap ++ style.lead depth ++ stringText key ++ ": "
        ++ render style depth value ++ renderFields style depth rest

end

def oneLine (value : Json) : String :=
  render .oneLine 0 value

/-- A value with every entry on a line of its own. -/
def indented (value : Json) : String :=
  render .indented 0 value

end Json

end PointerMotion
