import MediaRemote.Wire.Capabilities
import MediaRemote.Wire.Request

namespace MediaRemote.Session

open Json (Value)
open Wire (PlaybackState ActionDescriptor Request Message)

inductive Event
  | connected
  | disconnected
  | stateChanged (id : Option Int) (state : PlaybackState)
  /-- A duration of zero means that nothing is playing. -/
  | durationChanged (id : Option Int) (position duration : Binary64)
  | mediaChanged (id : Option Int) (media : Value)
  | infoChanged (id : Option Int) (info : Value)
  | optionsChanged (id : Option Int) (options : List String)
  | nextChanged (next : Int)
  | volumeChanged (volume : Option Int)
  | listChanged (playlist : List Value) (count : Nat)
  | infoSaved (message : Option Value)
  | eventsAnnounced (events : List String)
  | actionsAnnounced (actions : List ActionDescriptor)
  /-- A request failed, or the player reported an error of its own. -/
  | error (error : Value) (request : Option Request)
  | message (message : Message)

end MediaRemote.Session
