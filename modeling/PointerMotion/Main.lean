/-
The command line: reads the files and the environment, runs the command and
prints its report.
-/
import PointerMotion.Command
import PointerMotion.Options

namespace PointerMotion

namespace CommandLine

def fileBytes? (path : String) : IO (Option ByteArray) := do
  try
    return some (← IO.FS.readBinFile path)
  catch _ =>
    return none

def fileText? (path : String) : IO (Option String) := do
  return (← fileBytes? path).bind String.fromUTF8?

/-- Prints the ending of a command over a trace in a file, and gives its
code. -/
def report (file : String) (e : Command.Ending) : IO UInt32 := do
  for w in e.warnings do
    IO.eprintln w.message
  match e.result with
  | .ok lines =>
      for line in lines do
        IO.println line
  | .error failure => IO.eprintln (failure.message file)
  return UInt32.ofNat e.code

def run (o : Options) (file : String) : IO UInt32 := do
  let override ← IO.getEnv "VELOCITY_TRACKER_SETTINGS"
  let strategy ← IO.getEnv "VELOCITY_TRACKER_STRATEGY"
  let text ← fileText? (o.settings.getD (Settings.path override))
  if o.settings.isSome && text.isNone then
    IO.eprintln "the settings file cannot be read"
    return 2
  let bytes ← fileBytes? file
  report file <| Command.run
    { settings := ⟨text, strategy⟩
      strategies := o.strategies
      trace := bytes.map ByteArray.toList }

end CommandLine

end PointerMotion

open PointerMotion in
def main (arguments : List String) : IO UInt32 := do
  match Options.parse arguments with
  | .error e =>
      IO.eprintln e.message
      return 2
  | .ok o => CommandLine.run o (o.trace.getD "")
