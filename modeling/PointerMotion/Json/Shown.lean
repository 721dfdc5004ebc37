/-
JSON values as messages show them: texts quoted as in other messages, and the
three words capitalised.
-/
import PointerMotion.Json
import PointerMotion.Numeral.Shortest
import PointerMotion.Text.Quoted

namespace PointerMotion

namespace Json

mutual

def shown : Json → String
  | null => "None"
  | bool true => "True"
  | bool false => "False"
  | whole n => Decimal.intText n
  | double x => Shortest.text x
  | string s => Text.quoted s
  | array [] => "[]"
  | array (item :: rest) => "[" ++ shown item ++ shownItems rest ++ "]"
  | object [] => "\x7b\x7d"
  | object ((key, value) :: rest) =>
      "\x7b" ++ Text.quoted key ++ ": " ++ shown value ++
        shownFields rest ++ "\x7d"

def shownItems : List Json → String
  | [] => ""
  | item :: rest => ", " ++ shown item ++ shownItems rest

def shownFields : List (String × Json) → String
  | [] => ""
  | (key, value) :: rest =>
      ", " ++ Text.quoted key ++ ": " ++ shown value ++ shownFields rest

end

def kindName : Json → String
  | null => "NoneType"
  | bool _ => "bool"
  | whole _ => "int"
  | double _ => "float"
  | string _ => "str"
  | array _ => "list"
  | object _ => "dict"

end Json

end PointerMotion
