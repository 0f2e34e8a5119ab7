import MediaRemote.Json.Printer
import MediaRemote.Log
import MediaRemote.Session.Event

namespace MediaRemote.Console

open Session (Event)

def report : Event → Option Line
  | .connected => some ⟨.info, "connected"⟩
  | .disconnected => some ⟨.warn, "disconnected"⟩
  | .stateChanged id state =>
    match id.filter (0 ≤ ·) with
    | some id => some ⟨.info, state.text ++ " #" ++ toString id⟩
    | none => some ⟨.info, state.text⟩
  | .mediaChanged _ media => some ⟨.info, "media: " ++ media.text⟩
  | .infoChanged _ info => some ⟨.info, "info: " ++ info.text⟩
  | .optionsChanged _ options => some ⟨.info, "options: " ++ " ".intercalate options⟩
  | .volumeChanged (some level) => some ⟨.info, "volume: " ++ toString level⟩
  | .listChanged playlist count =>
    some ⟨.info, "list: " ++ toString playlist.length ++ " of " ++ toString count ++ " entries"⟩
  | .error error (some request) => some ⟨.warn, request.method ++ " failed: " ++ error.text⟩
  | .error error none => some ⟨.warn, "player error: " ++ error.text⟩
  | _ => none

end MediaRemote.Console
