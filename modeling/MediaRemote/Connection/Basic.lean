import MediaRemote.Endpoint
import MediaRemote.Log
import MediaRemote.Text.Seconds

namespace MediaRemote

inductive Phase
  | disconnected
  | connecting
  | open
  /-- Only while a close frame is being written. -/
  | closing
  | reconnectPending
  deriving DecidableEq, Repr, Inhabited

namespace Connection

inductive Event
  | open
  | text (s : String)
  /-- The socket is gone. Unless it was closed on purpose, it will be tried again. -/
  | close
  | error (fault : SocketFault)
  deriving DecidableEq, Repr

/-- What comes in from outside while a connection is awaited. -/
inductive Arrival
  | handshakeDone
  | handshakeFailed (fault : SocketFault)
  | text (s : String)
  /-- A frame without text: binary, ping, pong, or a close frame whose answer is still to go out. -/
  | otherFrame
  | ended
  | broken (fault : SocketFault)
  /-- The time of the timer has come. -/
  | timeUp
  deriving DecidableEq, Repr

inductive Notice
  | connecting (endpoint : Url)
  | connected (endpoint : Url)
  | connectFailed (endpoint : Url) (fault : SocketFault)
  | disconnected (endpoint : Url)
  | retrying (delay : Nat)
  | receiveFailed (fault : SocketFault)
  deriving DecidableEq, Repr

namespace Notice

def level : Notice → Level
  | connectFailed _ _ | receiveFailed _ => .error
  | _ => .info

def summary : Notice → String
  | connecting endpoint => "connecting to " ++ endpoint.text
  | connected endpoint => "connected to " ++ endpoint.text
  | connectFailed endpoint _ => "error connecting to " ++ endpoint.text
  | disconnected endpoint => "disconnected from " ++ endpoint.text
  | retrying delay => "reconnecting in " ++ Text.seconds delay ++ "s"
  | receiveFailed _ => "error receiving message"

def reason? : Notice → Option SocketFault
  | connectFailed _ fault | receiveFailed fault => some fault
  | _ => none

def text (n : Notice) : String :=
  match n.reason? with
  | some fault => n.summary ++ ": " ++ fault.kind.text
  | none => n.summary

end Notice
end Connection

/-- Sockets are numbered in the order in which they are opened. What is held and the phase are kept
apart; that they agree is a property of all operations. -/
structure Connection where
  endpoint : Url
  /-- Wait before a lost socket is tried again, in milliseconds. -/
  delay : Nat
  phase : Phase
  /-- Where the handshake in flight goes to. -/
  handshake : Option Url
  /-- The half of the socket that is written to. -/
  sender : Option Nat
  /-- The half of the socket that is read from. -/
  receiver : Option Nat
  /-- When a lost socket is tried again. -/
  timer : Option Nat
  /-- Events that were not delivered yet, oldest first. -/
  queue : List Connection.Event
  /-- How many sockets were opened so far. -/
  opened : Nat
  deriving DecidableEq, Repr, Inhabited

namespace Connection

def new (endpoint : Url) (delay : Nat) : Connection :=
  ⟨endpoint, delay, .disconnected, none, none, none, none, [], 0⟩

def isOpen (c : Connection) : Bool := c.phase = .open

def setEndpoint (c : Connection) (endpoint : Url) : Connection := { c with endpoint := endpoint }

def socket? (c : Connection) : Option Nat := if c.isOpen then c.sender else none

def send (c : Connection) : Except Error Nat :=
  match c.socket? with
  | some socket => .ok socket
  | none => .error (.unavailable "websocket is not open")

end Connection
end MediaRemote
