import MediaRemote.Json.Decoder

namespace MediaRemote.Wire

inductive PlaybackState
  | play
  | pause
  | stop
  /-- The connection was lost; players do not report it themselves. -/
  | disconnected
  | other (text : String)
  deriving DecidableEq, Repr, Inhabited

namespace PlaybackState

def ofText (s : String) : PlaybackState :=
  if s = "play" then play
  else if s = "pause" then pause
  else if s = "stop" then stop
  else if s = "disconnect" then disconnected
  else other s

def text : PlaybackState → String
  | play => "play"
  | pause => "pause"
  | stop => "stop"
  | disconnected => "disconnect"
  | other s => s

/-- Every text is kept, known or not. -/
theorem text_ofText (s : String) : (ofText s).text = s := by
  unfold ofText
  repeat' split
  all_goals simp_all [text]

def decoder : Json.Decoder PlaybackState := .ofString ofText

def toJson (s : PlaybackState) : Json.Value := .string s.text

end PlaybackState
end MediaRemote.Wire
