import MediaRemote.Client.Loop
import MediaRemote.Console.Desk

namespace MediaRemote

open Console (Desk Shown)

/-- Nobody waits for single answers. -/
structure Program where
  client : Client Empty
  desk : Desk
  running : Bool

namespace Program

inductive Order
  | connect (endpoint : Url)
  | send (text : String)
  | close
  deriving DecidableEq, Repr

def Order.text : Order → String
  | connect endpoint => "connect " ++ endpoint.text
  | send text => "send " ++ text
  | close => "close"

def arrival? (line : String) : Option Connection.Arrival :=
  match line with
  | "open" => some .handshakeDone
  | "refused" => some (.handshakeFailed .system)
  | "end" => some .ended
  | "lost" => some (.broken .system)
  | line =>
    match line.toList with
    | 't' :: 'e' :: 'x' :: 't' :: ' ' :: text => some (.text (String.ofList text))
    | _ => none

inductive Output
  | order (o : Order)
  | line (l : Line)
  deriving DecidableEq, Repr

def outputs (e : Client.Effect Empty) : List Output :=
  (match e with
    | .write _ text => [.order (.send text)]
    | .writeClose _ => [.order .close]
    | .connection (.connecting endpoint) => [.order (.connect endpoint)]
    | _ => []) ++ e.line?.toList.map .line

def eventsOf (effects : List (Client.Effect Empty)) : List Session.Event :=
  effects.filterMap fun e =>
    match e with
    | .player (.event e) => some e
    | _ => none

def report (d : Desk) : List Session.Event → Desk × List Output
  | [] => (d, [])
  | e :: rest =>
    let (d, shown) := d.event e
    let (d, more) := report d rest
    (d, shown.lines.map .line ++ more)

variable [Url.Idna]

def start (s : Settings) (barId : String) : Except EndpointFault (Program × List Output) :=
  (Client.new s (Client.playerOf s .live)).map fun c =>
    let (c, effects) := Client.connect c
    (⟨c, .new (Bar.CommandBar.new barId).1, true⟩, effects.flatMap outputs)

def turn (now : Nat) (i : Client.Input) (p : Program) : Program × List Output :=
  if p.running then
    let t := Client.turn now i p.client
    let (desk, lines) := report p.desk (eventsOf t.effects)
    (⟨t.client, desk, t.goesOn⟩, t.effects.flatMap outputs ++ lines)
  else (p, [])

def turns (now : Nat) : List Client.Input → Program → Program × List Output
  | [], p => (p, [])
  | i :: rest, p =>
    let (p, before) := p.turn now i
    let (p, after) := turns now rest p
    (p, before ++ after)

/-- Events of the connection wait in its queue, and timers for their time. -/
def due (now : Nat) (p : Program) : List Client.Input :=
  p.client.connection.queue.map (fun _ => .delivery) ++
    (if p.client.connection.timer.any (· ≤ now) then [.arrival .timeUp] else []) ++
    (if p.client.player.timer.any (· ≤ now) then [.tick] else [])

def socketLine (now : Nat) (line : String) (p : Program) : Program × List Output :=
  p.turns now ((arrival? line).map .arrival).toList

def userLine (now : Nat) (line : String) (p : Program) : Program × List Output :=
  let (desk, shown) := p.desk.input (line.toUTF8.toList ++ [10])
  let (p, outputs) := { p with desk := desk }.turns now (shown.commands.map .command)
  (p, shown.lines.map .line ++ outputs)

/-- Takes a line of either kind; what the holder of the socket tells stands behind an angle bracket.
What is due is done first. -/
def line (now : Nat) (text : String) (p : Program) : Program × List Output :=
  let (p, before) := p.turns now (p.due now)
  let (p, after) := match text.toList with
    | '<' :: rest => p.socketLine now (String.ofList rest)
    | _ => p.userLine now text
  let (p, last) := p.turns now (p.due now)
  (p, before ++ after ++ last)

end Program
end MediaRemote
