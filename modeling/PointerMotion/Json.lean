/-
JSON values.  Whole numbers and doubles are told apart, and the members of an
object keep the order in which their keys first came.
-/

namespace PointerMotion

/-- A JSON value. -/
inductive Json where
  | null
  | bool (b : Bool)
  | whole (n : Int)
  | double (x : Float)
  | string (s : String)
  | array (items : List Json)
  | object (fields : List (String × Json))
  deriving Inhabited

namespace Json

/-- The members of an object, keys in the order in which they first came. -/
abbrev Fields := List (String × Json)

/-- Sets the value of a key; a new key goes to the end. -/
def put (key : String) (value : Json) : Fields → Fields
  | [] => [(key, value)]
  | (k, v) :: rest =>
      if k == key then (k, value) :: rest else (k, v) :: put key value rest

/-- The members given one after another; the last value of a key counts. -/
def putAll (fields : Fields) (more : List (String × Json)) : Fields :=
  more.foldl (fun fields member => put member.1 member.2 fields) fields

def field? (key : String) : Json → Option Json
  | object fields => fields.lookup key
  | _ => none

end Json

end PointerMotion
