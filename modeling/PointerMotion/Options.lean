/-
The arguments of the command.
-/

namespace PointerMotion

/-- What the arguments ask for. -/
structure Options where
  trace : Option String
  strategies : List String
  settings : Option String
  verbose : Bool
  deriving Repr, DecidableEq

inductive OptionError where
  | missingValue (option : String)
  | unknownOption (option : String)
  | extraArgument (text : String)
  | missingTrace
  deriving Repr, DecidableEq

def OptionError.message : OptionError → String
  | .missingValue option => "option " ++ option ++ " needs a value"
  | .unknownOption option => "there is no option " ++ option
  | .extraArgument text => "unexpected argument " ++ text
  | .missingTrace => "the trace file is missing"

namespace Options

def empty : Options :=
  { trace := none, strategies := [], settings := none, verbose := false }

/-- Takes an argument that is no option. -/
def positional (o : Options) (text : String) : Except OptionError Options :=
  match o.trace with
  | none => .ok { o with trace := some text }
  | some _ => .error (.extraArgument text)

def valued (o : Options) (option value : String) : Except OptionError Options :=
  if option == "-s" || option == "--strategy" then
    .ok { o with strategies := o.strategies ++ [value] }
  else if option == "--settings" then .ok { o with settings := some value }
  else .error (.unknownOption option)

def takesValue (option : String) : Bool :=
  option == "-s" || option == "--strategy" || option == "--settings"

/-- An option with its value after an equals sign, in two parts. -/
def splitEquals (text : String) : String × Option String :=
  let cs := text.toList
  let name := cs.takeWhile (· != '=')
  match cs.drop name.length with
  | _ :: value => (String.ofList name, some (String.ofList value))
  | [] => (text, none)

/-- The options so far, and an option whose value comes next. -/
structure Pending where
  options : Options
  awaiting : Option String
  deriving Repr, DecidableEq

def Pending.take (p : Pending) (text : String) : Except OptionError Pending :=
  let o := p.options
  let settled (o : Options) : Pending := ⟨o, none⟩
  match p.awaiting with
  | some option => (o.valued option text).map settled
  | none =>
      if text == "-v" || text == "--verbose" then
        .ok (settled { o with verbose := true })
      else if takesValue text then .ok ⟨o, some text⟩
      else if text.startsWith "--" then
        match splitEquals text with
        | (option, some value) => (o.valued option value).map settled
        | (option, none) => .error (.unknownOption option)
      else if text.startsWith "-" then .error (.unknownOption text)
      else (o.positional text).map settled

/-- The options of a list of arguments, which must name a trace. -/
def parse (arguments : List String) : Except OptionError Options := do
  let p ← arguments.foldlM Pending.take ⟨empty, none⟩
  match p.awaiting with
  | some option => .error (.missingValue option)
  | none =>
      if p.options.trace.isNone then .error .missingTrace else return p.options

end Options

end PointerMotion
