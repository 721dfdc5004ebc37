/-
The settings file: a JSON document laid over the standard members, with the
strategy named by the environment over both.
-/
import PointerMotion.Json.Reader
import PointerMotion.Json.Printer
import PointerMotion.Json.Shown
import PointerMotion.Outcome
import PointerMotion.Settings

namespace PointerMotion

namespace Settings

def strategyKey : String :=
  "default_strategy"

def stoppedKey : String :=
  "assume_stopped_time_ms"

/-- The file looked for in the working directory. -/
def fileName : String :=
  "velocity_tracker.json"

/-- The file that is read: the one that the environment names, if it names
any. -/
def path (override : Option String) : String :=
  match override with
  | some file => if file.isEmpty then fileName else file
  | none => fileName

/-- The members in force when there is no file. -/
def standardMembers : Json.Fields :=
  [(strategyKey, .string "lsq2"), (stoppedKey, .double 40.0)]

inductive DocumentError where
  | unreadable (cause : Json.ReadError)
  /-- the document, or one of its entries, has no members -/
  | noMembers
  /-- an entry that is no pair -/
  | notAPair
  /-- a key that cannot be one -/
  | unusableKey
  deriving Repr, DecidableEq

/-- The key that a value makes. -/
def keyOf : Json → Except DocumentError String
  | .string s => .ok s
  | .array _ | .object _ => .error .unusableKey
  | value => .ok value.oneLine

/-- The member that an entry of a list makes: it must hold two things. -/
def memberOf : Json → Except DocumentError (String × Json)
  | .array [key, value] => (keyOf key).map fun key => (key, value)
  | .array _ => .error .notAPair
  | .string s =>
      match s.toList with
      | [key, value] =>
          .ok (String.singleton key, .string (String.singleton value))
      | _ => .error .notAPair
  | .object [(key, _), (value, _)] => .ok (key, .string value)
  | .object _ => .error .notAPair
  | _ => .error .noMembers

/-- The members of a document: those of an object, or of a list of pairs. -/
def membersOf : Json → Except DocumentError (List (String × Json))
  | .object fields => .ok fields
  | .array entries => entries.mapM memberOf
  | .string s => if s.isEmpty then .ok [] else .error .notAPair
  | _ => .error .noMembers

/-- Where settings come from: the text of the file and a strategy, if there are
any. -/
structure Source where
  file : Option String
  strategy : Option String
  deriving Repr, DecidableEq

def Source.members (s : Source) : Except DocumentError Json.Fields := do
  let own ←
    match s.file with
    | none => .ok []
    | some text => do
        let document ← (Json.read text.toList).mapError .unreadable
        membersOf document
  let fields := Json.putAll standardMembers own
  match s.strategy with
  | some name =>
      if name.isEmpty then return fields
      else return Json.put strategyKey (.string name) fields
  | none => return fields

inductive PauseError where
  /-- a value that does not count as a number -/
  | notNumeric
  /-- a text that is no numeral -/
  | malformed
  | conversion (cause : ConversionError)
  deriving Repr, DecidableEq

def pauseOf : Json → Except PauseError Float
  | .whole n => (Scalar.ofInt? n).mapError .conversion
  | .double x => .ok x
  | .bool b => .ok (if b then 1.0 else 0.0)
  | .string s =>
      match Literal.double? s with
      | some x => .ok x
      | none => .error .malformed
  | .null | .array _ | .object _ => .error .notNumeric

/-- The strategy that a value names; only a text can name one. -/
def selectorOf? : Json → Option Selector
  | .string s => Selector.ofName? s
  | _ => none

/-- The strategy of a value, with a warning when it cannot be used. -/
def fallbackOf (value : Json) : StrategyId × List Warning :=
  let name := standardStrategy.name
  match selectorOf? value with
  | some (.concrete id) => (id, [])
  | some .configured => (standardStrategy, [.circularDefault name])
  | none => (standardStrategy, [.unknownDefault value.shown name])

/-- Settings or the reason why there are none, with the warnings on the way. -/
structure Loaded where
  warnings : List Warning
  result : Except PauseError (Settings Float)

/-- The settings that members denote. -/
def ofMembers (fields : Json.Fields) : Loaded :=
  let member (key : String) (standard : Json) :=
    (fields.lookup key).getD standard
  let (fallback, warnings) := fallbackOf (member strategyKey (.string "lsq2"))
  { warnings := warnings
    result := (pauseOf (member stoppedKey (.double 40.0))).map fun pause =>
      ⟨.concrete fallback, pause⟩ }

def fileText (members : List (String × Json)) : String :=
  (Json.object (Json.putAll [] members)).indented

end Settings

end PointerMotion
