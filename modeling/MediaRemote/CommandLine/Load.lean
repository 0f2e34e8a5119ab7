import MediaRemote.CommandLine.Arguments
import MediaRemote.Settings.File

namespace MediaRemote.CommandLine

inductive LoadFault
  | file (fault : FileFault)
  | origin (fault : Url.UrlFault)
  | invalid (fault : SettingsFault)
  | noUrl
  deriving DecidableEq, Repr

def LoadFault.message : LoadFault → String
  | file fault => fault.error.message
  | origin fault => fault.message
  | invalid fault => fault.error.message
  | noUrl => "no player url configured: use --url or a configuration file"

namespace Arguments

variable [Url.Idna]

def base (a : Arguments) (file : FileState) : Except LoadFault Settings :=
  match a.config with
  | some name => (Settings.ofFile name file).mapError .file
  | .none => .ok .standard

def parseOrigin (a : Arguments) : Except LoadFault (Option Url) :=
  match a.origin with
  | some text => ((Url.parse text).mapError .origin).map some
  | .none => .ok .none

def override (a : Arguments) (origin : Option Url) (s : Settings) : Settings :=
  { s with
    url := a.url.getD s.url
    origin := origin.orElse fun _ => s.origin
    pageSize := a.pageSize.getD s.pageSize
    reconnectDelay := a.reconnectDelay.getD s.reconnectDelay }

/-- The settings to run with; `file` is what the path of the settings file leads to. The file has to
be valid by itself, and the merged settings once more. -/
def settings (a : Arguments) (file : FileState) : Except LoadFault Settings := do
  let s ← a.base file
  let origin ← a.parseOrigin
  let s ← (a.override origin s).validate.mapError .invalid
  if s.url.isEmpty then .error .noUrl else .ok s

end Arguments
end MediaRemote.CommandLine
