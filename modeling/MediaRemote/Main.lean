import MediaRemote.CommandLine.Load
import MediaRemote.Program

namespace MediaRemote.Main

open CommandLine (Arguments UsageFault)
open Program (Output)

def usage : String :=
  "Usage: media-remote [-c FILE] [-u URL] [--origin URL] [--page-size N]\n" ++
  "                    [--reconnect-delay MS] [--id ID] [-q | -v...]\n\n" ++
  "Commands are read from standard input, one per line. The client keeps running after the\n" ++
  "input ends; stop it with Ctrl+C, SIGTERM or the quit command. SIGHUP reconnects."

def complaint : UsageFault → String
  | .unknown argument => "unexpected argument " ++ argument
  | .missingValue _ => "a value is required"
  | .notANumber _ value => "invalid value " ++ value
  | .conflict => "arguments cannot be used together or more than once"
  | .unwantedValue _ => "unexpected value"
  | .helpWanted => usage
  | .versionWanted => "media-remote 0.1.0"

/-- Asking for help or for the version is no mistake. -/
def exitCode : UsageFault → UInt32
  | .helpWanted | .versionWanted => 0
  | _ => 2

def readFile (path : String) : IO FileState := do
  try return .contents (← IO.FS.readBinFile path).toList
  catch
    | .noFileOrDirectory .. => return .missing
    | .inappropriateType .. => return .directory
    | .permissionDenied _ code details =>
      return .unreadable ⟨.permissionDenied, details ++ " (os error " ++ toString code ++ ")"⟩
    | e => return .unreadable ⟨.other, toString e⟩

def shows (a : Arguments) : Level → Bool
  | .error | .warn => true
  | .info => !a.quiet

def print (a : Arguments) : Output → IO Unit
  | .order o => do
    IO.println (">" ++ o.text)
    (← IO.getStdout).flush
  | .line l => if shows a l.level then IO.eprintln (l.level.name ++ ": " ++ l.text) else pure ()

variable [Url.Idna]

partial def loop (a : Arguments) (p : Program) : IO Unit := do
  if !p.running then return
  let line ← (← IO.getStdin).getLine
  if line.isEmpty then return
  let (p, outputs) := p.line (← IO.monoMsNow) (line.dropEndWhile (· = '\n')).toString
  outputs.forM (print a)
  loop a p

def run (a : Arguments) : IO UInt32 := do
  let file ← match a.config with
    | some path => readFile path
    | none => pure .missing
  match a.settings file with
  | .error fault =>
    IO.eprintln ("error: " ++ fault.message)
    return 1
  | .ok s =>
    match Program.start s a.barId with
    | .error fault =>
      IO.eprintln ("error: " ++ fault.error.message)
      return 1
    | .ok (p, outputs) =>
      outputs.forM (print a)
      loop a p
      return 0

end MediaRemote.Main

def main (arguments : List String) : IO UInt32 :=
  match MediaRemote.CommandLine.parse arguments with
  | .error fault => do
    IO.println (MediaRemote.Main.complaint fault)
    return MediaRemote.Main.exitCode fault
  | .ok a =>
    -- names beyond ASCII are left to a program that has the tables for them
    let _ := MediaRemote.Url.Idna.ascii
    MediaRemote.Main.run a
