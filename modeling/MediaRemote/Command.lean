import MediaRemote.Text.Blank
import MediaRemote.Text.Integer
import MediaRemote.Wire.Window

namespace MediaRemote

open Json (Value)
open Wire (WindowQuery)

inductive Command
  | play
  | pause
  | stop
  | next
  /-- Changes the volume by a step, or asks for it. -/
  | volume (step : Option Int)
  | shuffle (on : Bool)
  | loop (on : Bool)
  | filter (params : Value)
  /-- Queues the entry under `next`, or changes to what is under `media`. -/
  | change (media : Value)
  /-- Asks for an entry, or for the state of the player. -/
  | about (id : Option Int)
  | list (query : WindowQuery)
  /-- Negotiates the capabilities again. -/
  | load
  | changePlayer (url : String)
  | reconnect
  | quit
  deriving Inhabited

def volumeStep : Int := 5

inductive CommandFault
  | unknown (line : String)
  | needsSwitch (verb : String)
  | trailing (line : String)
  | integer (fault : Text.IntegerFault)
  deriving DecidableEq, Repr

def CommandFault.error : CommandFault → Error
  | unknown line => .invalidArgument ("unknown command: " ++ line)
  | needsSwitch verb => .invalidArgument (verb ++ " needs on or off")
  | trailing line => .invalidArgument ("trailing arguments: " ++ line)
  | integer fault => fault.error

namespace Command

def switch (verb : String) : Option String → Except CommandFault Bool
  | some "on" => .ok true
  | some "off" => .ok false
  | _ => .error (.needsSwitch verb)

def signed (s : String) : Except CommandFault Int := (Text.signed s).mapError .integer

def unsigned (s : String) : Except CommandFault Nat := (Text.unsigned s).mapError .integer

def choose (line verb : String) (argument : Option String) : Except CommandFault Command :=
  match verb, argument with
  | "play", none => .ok play
  | "pause", none => .ok pause
  | "stop", none => .ok stop
  | "next", none => .ok next
  | "status", none | "about", none => .ok (about none)
  | "about", some id => (signed id).map fun id => about (some id)
  | "load", none => .ok load
  | "list", none => .ok (list WindowQuery.blank)
  | "list", some id => (unsigned id).map fun id => list { WindowQuery.blank with id := some id }
  | "random", a | "shuffle", a => (switch verb a).map shuffle
  | "repeat", a | "loop", a => (switch verb a).map loop
  | "volume", none => .ok (volume none)
  | "volume", some "up" => .ok (volume (some volumeStep))
  | "volume", some "down" => .ok (volume (some (-volumeStep)))
  | "volume", some step => (signed step).map fun step => volume (some step)
  | "connect", some url => .ok (changePlayer url)
  | "reconnect", none => .ok reconnect
  | "quit", none | "exit", none => .ok quit
  | _, _ => .error (.unknown line)

def parse (line : String) : Except CommandFault Command :=
  let words := Text.words line
  match choose line (words.head?.getD "") words[1]? with
  | .error fault => .error fault
  | .ok command => if words.length ≤ 2 then .ok command else .error (.trailing line)

end Command
end MediaRemote
