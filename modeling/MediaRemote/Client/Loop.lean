import MediaRemote.Client.Basic

namespace MediaRemote.Client

open Step ClientStep

variable {ρ : Type} [Url.Idna]

inductive Input
  /-- An event that the connection had queued is delivered. -/
  | delivery
  | arrival (a : Connection.Arrival)
  /-- The timer of the player ticks. -/
  | tick
  | command (c : Command)
  /-- There will be no more commands. -/
  | commandsEnded

def handle (now : Nat) : Connection.Event → ClientStep ρ
  | .open => ofPlayer Session.Player.opened
  | .text s => ofPlayer (Session.Player.receive now s)
  | .close => ofPlayer Session.Player.closed
  | .error _ => skip

def deliver (now : Nat) : ClientStep ρ := fun c =>
  match c.connection.deliver? with
  | some (e, d) => inOrder [handle now e, flush] { c with connection := d }
  | none => skip c

def arrive (now : Nat) (a : Connection.Arrival) : ClientStep ρ := fun c =>
  let arrived := c.connection.arrive now a
  let react : ClientStep ρ :=
    match arrived.event with
    | some e => inOrder [handle now e, flush]
    | none => skip
  let (d, effects) := react { c with connection := arrived.connection }
  (d, arrived.notices.map .connection ++ effects)

/-- The timer ticks no earlier than it is due. -/
def tick (now : Nat) : ClientStep ρ := fun c =>
  if c.player.timer.any (· ≤ now) then
    inOrder [ofPlayer (Session.Player.tick now), ofPlayer Session.Player.askPosition, flush] c
  else skip c

structure Turn (ρ : Type) where
  client : Client ρ
  effects : List (Effect ρ)
  goesOn : Bool

def Turn.of (goesOn : Bool) (r : Client ρ × List (Effect ρ)) : Turn ρ := ⟨r.1, r.2, goesOn⟩

def obey (command : Command) (c : Client ρ) : Turn ρ :=
  match command with
  | .changePlayer url => .of true (inOrder [changePlayer url, flush] c)
  | .reconnect => .of true (inOrder [reconnect, flush] c)
  | .quit => .of false (stop c)
  | command => .of true (inOrder [ofPlayer (Session.Player.execute command), flush] c)

/-- Takes in one thing that happened. The loop ends when it is told to quit, or when nobody is left
who could give commands. -/
def turn (now : Nat) (i : Input) (c : Client ρ) : Turn ρ :=
  match i with
  | .delivery => .of true (deliver now c)
  | .arrival a => .of true (arrive now a c)
  | .tick => .of true (tick now c)
  | .command command => obey command c
  | .commandsEnded => .of false (stop c)

end MediaRemote.Client
