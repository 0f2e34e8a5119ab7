import MediaRemote.Connection.Lifecycle
import MediaRemote.Session.Player.Execute
import MediaRemote.Session.Player.Inbound
import MediaRemote.Settings.Basic

namespace MediaRemote

/-- A connection and the player at its other end. Whatever happens is handled to its end before the
next thing, and the requests that came of it are sent right after. -/
structure Client (ρ : Type) where
  connection : Connection
  player : Session.Player ρ
  /-- The page that paths are resolved on. -/
  origin : Option Url

namespace Client

inductive Notice
  | reconnecting
  | cannotChangePlayer (fault : EndpointFault)
  | changingPlayer (endpoint : Url)
  | requestNotSent (cause : Error)
  deriving DecidableEq, Repr

namespace Notice

def level : Notice → Level
  | reconnecting | changingPlayer _ => .info
  | cannotChangePlayer _ | requestNotSent _ => .error

def text : Notice → String
  | reconnecting => "reconnecting"
  | cannotChangePlayer fault => "cannot change player: " ++ fault.error.message
  | changingPlayer endpoint => "changing player to " ++ endpoint.text
  | requestNotSent cause => "error sending request: " ++ cause.message

end Notice

inductive Effect (ρ : Type)
  /-- A text frame is written on a socket. -/
  | write (socket : Nat) (text : String)
  /-- A close frame is written on a socket. -/
  | writeClose (socket : Nat)
  | player (e : Session.Effect ρ)
  | connection (n : Connection.Notice)
  | note (n : Notice)

/-- The line that an effect leaves in the log, without details that depend on how a text was
read. -/
def Effect.line? {ρ : Type} : Effect ρ → Option Line
  | .player (.notice n) => some ⟨n.level, n.summary⟩
  | .connection n => some ⟨n.level, n.summary⟩
  | .note n => some ⟨n.level, n.text⟩
  | _ => none

abbrev ClientStep (ρ : Type) := Step (Client ρ) (Effect ρ)

namespace ClientStep

variable {ρ : Type}

def note (n : Notice) : ClientStep ρ := Step.give (.note n)

def ofPlayer (f : Session.PlayerStep ρ) : ClientStep ρ := fun c =>
  let (p, effects) := f c.player
  ({ c with player := p }, effects.map .player)

end ClientStep

variable {ρ : Type} [Url.Idna]

open Step ClientStep

def new (s : Settings) (player : Session.Player ρ) : Except EndpointFault (Client ρ) :=
  (Endpoint.resolve s.url s.origin).map fun endpoint =>
    ⟨.new endpoint s.reconnectDelay, player, s.origin⟩

def playerOf (s : Settings) (observer : Session.Observer) : Session.Player ρ :=
  .new s.pageSize s.pollInterval s.forwardMessages observer

def connect : ClientStep ρ := fun c =>
  let (d, notices) := c.connection.connect
  ({ c with connection := d }, notices.map .connection)

def closeConnection : ClientStep ρ := fun c =>
  let (d, socket) := c.connection.close
  ({ c with connection := d }, (socket.map .writeClose).toList)

def reconnect : ClientStep ρ := inOrder [note .reconnecting, connect]

def stop : ClientStep ρ := inOrder [closeConnection, ofPlayer Session.Player.closed]

def changePlayer (url : String) : ClientStep ρ := fun c =>
  match Endpoint.resolve url c.origin with
  | .error fault => note (.cannotChangePlayer fault) c
  | .ok endpoint =>
    inOrder
      [note (.changingPlayer endpoint),
       closeConnection,
       ofPlayer Session.Player.resetSession,
       modify fun c => { c with connection := c.connection.setEndpoint endpoint },
       connect] c

/-- Where a frame goes: onto the open socket, or nowhere, which is noted. -/
def sendFrame (c : Connection) (frame : String) : Effect ρ :=
  match c.send with
  | .ok socket => .write socket frame
  | .error cause => .note (.requestNotSent cause)

def flush : ClientStep ρ := fun c =>
  let (frames, p) := c.player.drain
  ({ c with player := p }, frames.map (sendFrame c.connection))

end Client
end MediaRemote
