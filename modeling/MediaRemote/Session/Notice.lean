import MediaRemote.Json.Printer
import MediaRemote.Log
import MediaRemote.Session.Routes
import MediaRemote.Session.Rpc

namespace MediaRemote.Session

open Json (Value)

inductive Notice
  | malformedMessage (fault : Json.Fault)
  | strayResponse (id : Value)
  | requestFailed (method : Option String) (error : Value)
  | requestNotSent (cause : InvalidParams)
  | unusablePayload (slot : Slot)
  | unknownAction (method : String)
  | supportedActions (methods : List String)
  | playerMessage (message : Value)
  | cannotChangePlayer (url : String)
  | reconnectNeedsClient
  | quitNeedsClient

namespace Notice

def level : Notice → Level
  | requestNotSent _ => .error
  | supportedActions _ | playerMessage _ => .info
  | _ => .warn

def summary : Notice → String
  | malformedMessage _ => "ignoring malformed message"
  | strayResponse id => "no pending request with id " ++ id.text
  | requestFailed method error => method.getD "request" ++ " failed: " ++ error.text
  | requestNotSent cause => cause.kind.text ++ ": " ++ cause.summary
  | unusablePayload slot => slot.name ++ " handler cannot use payload"
  | unknownAction method => "unknown action " ++ method
  | supportedActions methods => "player supports " ++ ", ".intercalate methods
  | playerMessage message => message.text
  | cannotChangePlayer url => "cannot change to " ++ url ++ " without a client"
  | reconnectNeedsClient => "Reconnect needs a client"
  | quitNeedsClient => "Quit needs a client"

def details? : Notice → Option String
  | malformedMessage fault => some fault.text
  | requestNotSent cause => some cause.fault.text
  | unusablePayload _ => some Json.Fault.unfit.text
  | _ => none

def text (n : Notice) : String :=
  match n.details? with
  | some d => n.summary ++ ": " ++ d
  | none => n.summary

end Notice
end MediaRemote.Session
