import MediaRemote.Connection.Basic

namespace MediaRemote.Connection

def cancelRetry (c : Connection) : Connection :=
  { c with
    timer := none
    phase := if c.phase = .reconnectPending then .disconnected else c.phase }

def dropSocket (c : Connection) : Connection :=
  { c with sender := none, receiver := none, handshake := none, phase := .disconnected }

def enqueue (c : Connection) (e : Event) : Connection := { c with queue := c.queue ++ [e] }

def startHandshake (c : Connection) : Connection × List Notice :=
  ({ c with handshake := some c.endpoint, phase := .connecting }, [.connecting c.endpoint])

/-- Opens a socket. One that is open is dropped first, and its close is reported; a handshake in
flight goes on. -/
def connect (c : Connection) : Connection × List Notice :=
  let c := c.cancelRetry
  match c.phase with
  | .connecting => (c, [])
  | .open => (c.dropSocket.enqueue .close).startHandshake
  | _ => c.startHandshake

/-- Closes on purpose: nothing is tried again and nothing more is reported. Gives the socket on
which a close frame is written. -/
def close (c : Connection) : Connection × Option Nat :=
  let c := { c.cancelRetry with handshake := none, queue := [] }
  let closing := match c.sender with
    | some _ => { c with sender := none, phase := .closing }
    | none => c
  ({ closing with receiver := none, phase := .disconnected }, c.sender)

def scheduleRetry (now : Nat) (c : Connection) : Connection × List Notice :=
  match c.timer with
  | some _ => ({ c with phase := .reconnectPending }, [])
  | none =>
    ({ c with timer := some (now + c.delay), phase := .reconnectPending }, [.retrying c.delay])

/-- The socket, or the attempt to open one, has ended by itself. -/
def lose (now : Nat) (c : Connection) : Connection × List Notice :=
  let (d, notices) := c.dropSocket.scheduleRetry now
  (d, (if c.sender.isSome then [.disconnected c.endpoint] else []) ++ notices)

def deliver? (c : Connection) : Option (Event × Connection) :=
  match c.queue with
  | [] => none
  | e :: rest => some (e, { c with queue := rest })

def expects (now : Nat) (c : Connection) : Arrival → Bool
  | .handshakeDone | .handshakeFailed _ => c.handshake.isSome
  | .text _ | .otherFrame | .ended | .broken _ => c.receiver.isSome
  | .timeUp => c.timer.any (· ≤ now)

structure Arrived where
  connection : Connection
  /-- What is delivered at once. -/
  event : Option Event
  notices : List Notice

/-- The socket broke: the error is delivered at once and a close is to follow. -/
def fail (now : Nat) (c : Connection) (fault : SocketFault) (notice : Notice) : Arrived :=
  let (d, notices) := c.lose now
  ⟨d.enqueue .close, some (.error fault), notice :: notices⟩

/-- Takes in what arrives while nothing is queued; what cannot arrive changes nothing. -/
def arrive (now : Nat) (a : Arrival) (c : Connection) : Arrived :=
  if !c.queue.isEmpty || !c.expects now a then ⟨c, none, []⟩
  else
    match a with
    | .handshakeDone =>
      ⟨{ c with
          handshake := none
          sender := some c.opened
          receiver := some c.opened
          opened := c.opened + 1
          phase := .open },
        some .open, [.connected c.endpoint]⟩
    | .handshakeFailed fault => c.fail now fault (.connectFailed c.endpoint fault)
    | .text s => ⟨c, some (.text s), []⟩
    | .otherFrame => ⟨c, none, []⟩
    | .ended =>
      let (d, notices) := c.lose now
      ⟨d, some .close, notices⟩
    | .broken fault => c.fail now fault (.receiveFailed fault)
    | .timeUp =>
      let (d, notices) := { c with timer := none, phase := .disconnected }.connect
      ⟨d, none, notices⟩

end MediaRemote.Connection
