import MediaRemote.Settings.Basic
import MediaRemote.Text.Utf8
import MediaRemote.Toml.Entry

namespace MediaRemote

structure SystemError where
  fault : SystemFault
  text : String
  deriving DecidableEq, Repr

def SystemError.error (e : SystemError) : Error := ⟨e.fault.kind, e.text⟩

/-- What a path leads to. What can be read is a regular file, whose length is the number of its
bytes. -/
inductive FileState
  | unreadable (cause : SystemError)
  | contents (bytes : List UInt8)
  deriving DecidableEq, Repr

def FileState.missing : FileState :=
  .unreadable ⟨.notFound, "No such file or directory (os error 2)"⟩

def FileState.directory : FileState := .unreadable ⟨.other, "Is a directory (os error 21)"⟩

inductive FileFault
  | unreadable (cause : SystemError)
  | tooLarge (name : String) (size : Nat)
  | notText
  | notToml
  | unsuitable (entry : Toml.Entry)
  | invalid (fault : SettingsFault)
  deriving DecidableEq, Repr

def FileFault.error : FileFault → Error
  | unreadable cause => cause.error
  | tooLarge name size => .outOfRange (name ++ " is too large (" ++ toString size ++ " bytes)")
  | notText => .invalidArgument "stream did not contain valid UTF-8"
  | notToml => .invalidArgument "no list of settings"
  | unsuitable entry => .invalidArgument ("no setting " ++ entry.key ++ " or not of this kind")
  | invalid fault => fault.error

namespace Settings

variable [Url.Idna]

def maxFileSize : Nat := 16 * 1024

def set? (s : Settings) (e : Toml.Entry) : Option Settings :=
  match e.key, e.value with
  | "url", .string url => some { s with url := url }
  | "origin", .string origin =>
    match Url.parse origin with
    | .ok url => some { s with origin := some url }
    | .error _ => none
  | "page_size", .integer n =>
    if 0 ≤ n ∧ n < bound32 then some { s with pageSize := n.toNat } else none
  | "reconnect_delay", .integer n =>
    if 0 ≤ n then some { s with reconnectDelay := n.toNat } else none
  | "poll_interval", .integer n =>
    if 0 ≤ n then some { s with pollInterval := n.toNat } else none
  | "forward_messages", .boolean b => some { s with forwardMessages := b }
  | _, _ => none

def ofEntries : Settings → List Toml.Entry → Except FileFault Settings
  | s, [] => .ok s
  | s, e :: rest =>
    match s.set? e with
    | some s => ofEntries s rest
    | none => .error (.unsuitable e)

def ofToml (text : String) : Except FileFault Settings :=
  match Toml.entries? text with
  | some entries => ofEntries standard entries
  | none => .error .notToml

/-- A small flat TOML document. What it leaves out keeps its standard value, and it has to be valid
as it stands. -/
def ofFile (name : String) : FileState → Except FileFault Settings
  | .unreadable cause => .error (.unreadable cause)
  | .contents bytes =>
    if maxFileSize < bytes.length then .error (.tooLarge name bytes.length)
    else
      match Text.decodeUtf8 bytes with
      | .error _ => .error .notText
      | .ok text => do (← ofToml text).validate.mapError .invalid

end Settings
end MediaRemote
