import MediaRemote.Command
import MediaRemote.Session.Event
import MediaRemote.Session.Notice
import MediaRemote.Step

namespace MediaRemote.Session

open Json (Value)
open Wire (PlaybackState CapabilitySet Window Action Params Request)

structure ListWindow where
  cursor : Option Window
  playlist : List Value
  count : Nat

/-- What is known of the remote player. The remote player decides: after a reconnect this is stale
until it is refreshed. -/
structure Cache where
  id : Option Int
  state : PlaybackState
  duration : Option Binary64
  position : Option Binary64
  media : Option Value
  info : Option Value
  options : List String
  next : Option Int
  volume : Option Int
  list : Option ListWindow

def Cache.blank : Cache := ⟨none, .stop, none, none, none, none, [], none, none, none⟩

/-- Whether anyone is told of events: no one registered, everyone left, or someone listens. -/
inductive Observer
  | none | gone | live
  deriving DecidableEq, Repr

inductive Effect (ρ : Type)
  | event (e : Event)
  | reply (r : ρ) (result : Option Value)
  | notice (n : Notice)

/-- What is known of one remote player and asked of it. Everything that it does is a step to the
next player, with the effects outside in order; frames collect in the outbox of its requests. -/
structure Player (ρ : Type) where
  rpc : Rpc ρ
  routes : Routes
  capabilities : CapabilitySet
  cache : Cache
  pageSize : Nat
  /-- Time between two questions for the position, in milliseconds. -/
  pollInterval : Nat
  /-- When the position is asked for next, if a timer runs. -/
  timer : Option Nat
  forwards : Bool
  observer : Observer

abbrev PlayerStep (ρ : Type) := Step (Player ρ) (Effect ρ)

namespace PlayerStep

open Step

variable {ρ : Type}

def update (f : Cache → Cache) : PlayerStep ρ := modify fun p => { p with cache := f p.cache }

def note (n : Notice) : PlayerStep ρ := give (.notice n)

def emit (e : Event) : PlayerStep ρ := fun p =>
  (p, if p.observer = .live then [.event e] else [])

end PlayerStep

namespace Player

variable {ρ : Type}

/-- A player that was never connected; a page has at least one entry. -/
def new (pageSize pollInterval : Nat) (forwards : Bool) (observer : Observer) : Player ρ where
  rpc := .new
  routes := .permanent
  capabilities := .empty
  cache := .blank
  pageSize := max pageSize 1
  pollInterval := pollInterval
  timer := none
  forwards := forwards
  observer := observer

def isConnected (p : Player ρ) : Bool := p.rpc.isOpen

def isPolling (p : Player ρ) : Bool := p.timer.isSome

def drain (p : Player ρ) : List String × Player ρ :=
  let (frames, rpc) := p.rpc.drain
  (frames, { p with rpc := rpc })

open Step PlayerStep

def request (method : String) (params : Params) (reply : Option ρ) (p : Player ρ) :
    Option Nat × Player ρ × List (Effect ρ) :=
  match p.rpc.send method params reply with
  | .ok (id, rpc) => (id, { p with rpc := rpc }, [])
  | .error cause => (none, p, [.notice (.requestNotSent cause)])

def send (action : Action) (params : Value) : PlayerStep ρ := fun p =>
  (p.request action.method (.value params) none).2

def sendGated (gate : List Action) (action : Action) (params : Value) : PlayerStep ρ := fun p =>
  if p.capabilities.containsAny gate then send action params p else skip p

def sendList (w : Window) : PlayerStep ρ :=
  send .list (.object [("first", .integer w.first), ("maxitems", .integer w.maxitems)])

def load : PlayerStep ρ := send .capabilities .null

def askPosition : PlayerStep ρ := send .getPosition .null

/-- Starts the timer anew: it first ticks one interval from now. The interval is never zero, because
settings with an empty one are refused (`Settings.validate`); no timer could be started with it. -/
def startPolling (now : Nat) : PlayerStep ρ :=
  modify fun p => { p with timer := some (now + p.pollInterval) }

def stopPolling : PlayerStep ρ := modify fun p => { p with timer := none }

/-- How late a tick may be, in milliseconds, and the next one still keep its time. -/
def tickTolerance : Nat := 5

/-- The timer ticks. After a late tick the next one is a whole interval away. -/
def tick (now : Nat) : PlayerStep ρ := modify fun p =>
  { p with
    timer := p.timer.map fun due =>
      if due + tickTolerance < now then now + p.pollInterval else due + p.pollInterval }

def opened : PlayerStep ρ :=
  inOrder [modify fun p => { p with rpc := p.rpc.setOpen true }, emit .connected, load]

/-- The socket closed, for whatever reason: requests, timer, capabilities and routes are gone. -/
def closed : PlayerStep ρ := fun p =>
  let forget : PlayerStep ρ := modify fun p =>
    { p with
      rpc := p.rpc.reset
      timer := none
      capabilities := .empty
      routes := .permanent }
  let announce : PlayerStep ρ := inOrder
    [update fun c => { c with state := .disconnected },
     emit (.stateChanged (some (-1)) .disconnected),
     emit .disconnected]
  inOrder [forget, onlyIf p.isConnected announce] p

/-- Ends the session, so that another player can be followed: requests are numbered from 0 again. -/
def resetSession : PlayerStep ρ := inOrder [closed, modify fun p => { p with rpc := .new }]

end Player
end MediaRemote.Session
