/-
The command: replay a trace through some strategies and report the estimates.
The first thing that is wrong, in settings, strategies or trace, ends it.
-/
import PointerMotion.Replay
import PointerMotion.Settings.Document

namespace PointerMotion

namespace Command

/-- What a command works on. -/
structure Invocation where
  settings : Settings.Source
  /-- the names of the strategies; none stands for the configured one -/
  strategies : List String
  /-- the bytes of the trace, if there is such a file -/
  trace : Option (List UInt8)

/-- Why a command ends early. -/
inductive Failure where
  | noTrace
  | unknownStrategy (name : String)
  | trace (cause : Trace.Error)
  | document (cause : Settings.DocumentError)
  | pause (cause : Settings.PauseError)
  | creation (cause : CreationError)
  | movement (cause : InputError)
  deriving Repr, DecidableEq

def Failure.message (file : String) : Failure → String
  | .noTrace => file ++ " does not exist"
  | .unknownStrategy name => Selector.unknownMessage name
  | .trace cause => cause.message file
  | .document _ => "the settings file holds no settings"
  | .pause _ => "the pause in the settings is no number"
  | .creation cause => cause.message
  | .movement cause => cause.message

/-- What a command leaves: warnings, and lines or a failure. -/
structure Ending where
  warnings : List Warning
  result : Except Failure (List String)

/-- An ending with more warnings in front. -/
def Ending.after (warnings : List Warning) (e : Ending) : Ending :=
  { e with warnings := warnings ++ e.warnings }

/-- The selectors of names, which default to the configured one. -/
def selectors (names : List String) : Except Failure (List Selector) :=
  (if names.isEmpty then ["default"] else names).mapM fun name =>
    match Selector.ofName? name with
    | some s => .ok s
    | none => .error (.unknownStrategy name)

def reports (settings : Settings Float) (samples : List Trace.Sample) :
    List Selector → Ending
  | [] => ⟨[], .ok []⟩
  | s :: rest =>
      let creation := Tracker.create (.selector s) settings
      match creation.result with
      | .error cause => ⟨creation.warnings, .error (.creation cause)⟩
      | .ok t =>
          let outcome := Replay.replay samples t
          let warnings := creation.warnings ++ outcome.warnings
          match outcome.error with
          | some cause => ⟨warnings, .error (.movement cause)⟩
          | none =>
              let later := reports settings samples rest
              ⟨warnings ++ later.warnings,
                later.result.map (Replay.report samples outcome.state ++ ·)⟩

def noSamples : List String :=
  ["Trace contains no samples."]

/-- Runs a command whose settings have been read. -/
def runWith (settings : Settings Float) (names : List String)
    (bytes : List UInt8) : Ending :=
  match selectors names with
  | .error failure => ⟨[], .error failure⟩
  | .ok selectors =>
      match Trace.ofBytes bytes with
      | .error cause => ⟨[], .error (.trace cause)⟩
      | .ok [] => ⟨[], .ok noSamples⟩
      | .ok samples => reports settings samples selectors

def run (i : Invocation) : Ending :=
  match i.trace with
  | none => ⟨[], .error .noTrace⟩
  | some bytes =>
      match i.settings.members with
      | .error cause => ⟨[], .error (.document cause)⟩
      | .ok fields =>
          let loaded := Settings.ofMembers fields
          match loaded.result with
          | .error cause => ⟨loaded.warnings, .error (.pause cause)⟩
          | .ok settings =>
              (runWith settings i.strategies bytes).after loaded.warnings

/-- Whether a failure is a mistake in how the command was called. -/
def Failure.isUsage : Failure → Bool
  | .noTrace | .unknownStrategy _ | .trace (.badRow _ _) => true
  | _ => false

def Ending.code (e : Ending) : Nat :=
  match e.result with
  | .ok _ => 0
  | .error failure => if failure.isUsage then 2 else 1

end Command

end PointerMotion
