import MediaRemote.Endpoint

namespace MediaRemote

/-- What a client is set up with. Lengths of time are in milliseconds. -/
structure Settings where
  /-- A complete socket URL, or a path on the origin. -/
  url : String
  origin : Option Url
  /-- Entries in a list window. -/
  pageSize : Nat
  /-- Wait before a lost connection is tried again. -/
  reconnectDelay : Nat
  /-- Time between two questions for the position while something is playing. -/
  pollInterval : Nat
  /-- Is every message that was read reported as an event? -/
  forwardMessages : Bool
  deriving DecidableEq, Repr, Inhabited

inductive SettingsFault
  | emptyPage | emptyInterval
  deriving DecidableEq, Repr

def SettingsFault.error : SettingsFault → Error
  | emptyPage => .outOfRange "page size must be positive"
  | emptyInterval => .outOfRange "intervals must be positive"

namespace Settings

def standard : Settings where
  url := ""
  origin := none
  pageSize := 5
  reconnectDelay := 3000
  pollInterval := 1000
  forwardMessages := false

def withUrl (url : String) : Settings := { standard with url := url }

/-- What is wrong with the settings; the page size is looked at first. -/
def fault? (s : Settings) : Option SettingsFault :=
  if s.pageSize = 0 then some .emptyPage
  else if s.reconnectDelay = 0 ∨ s.pollInterval = 0 then some .emptyInterval
  else none

def validate (s : Settings) : Except SettingsFault Settings :=
  match s.fault? with
  | some fault => .error fault
  | none => .ok s

end Settings
end MediaRemote
