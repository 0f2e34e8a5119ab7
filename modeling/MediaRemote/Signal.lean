import MediaRemote.Command
import MediaRemote.Log

namespace MediaRemote

inductive Signal
  | interrupt
  | terminate
  | hangup
  deriving DecidableEq, Repr

namespace Signal

def text : Signal → String
  | interrupt => "Ctrl+C"
  | terminate => "SIGTERM"
  | hangup => "SIGHUP"

def isShutdown : Signal → Bool
  | interrupt | terminate => true
  | hangup => false

def command (s : Signal) : Command := if s.isShutdown then .quit else .reconnect

def notice (s : Signal) : Line :=
  ⟨.info, "received " ++ s.text ++ (if s.isShutdown then ", shutting down gracefully" else "")⟩

end Signal
end MediaRemote
