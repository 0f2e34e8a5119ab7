import MediaRemote.Session.Player

namespace MediaRemote.Session.Player

open Json (Value)
open Wire (WindowQuery)
open Step PlayerStep

variable {ρ : Type}

/-- A step of zero only asks for the volume. -/
def volumeParams (step : Option Int) : Value :=
  match step.filter (· ≠ 0) with
  | some n => .object [("step", .integer n)]
  | none => .null

/-- Queues what is under `next` if the player can; or else changes to what is under `media`. -/
def executeChange (media : Value) : PlayerStep ρ := fun p =>
  let next := ((media.member? "next").bind Value.present).filter
    fun _ => p.capabilities.contains .setNext
  match next with
  | some id => send .setNext (.object [("id", id)]) p
  | none =>
    onlyIf (((media.member? "media").bind Value.present).isSome) (sendGated [.change] .change media)
      p

def about (id : Option Int) : PlayerStep ρ :=
  match id with
  | some id => send .info (.object [("id", .integer id)])
  | none => send .status .null

def list (query : WindowQuery) : PlayerStep ρ := fun p =>
  onlyIf (p.capabilities.contains .list) (sendList (query.resolve p.pageSize)) p

def execute : Command → PlayerStep ρ
  | .play => sendGated [.play, .pause] .play .null
  | .pause => sendGated [.pause] .pause .null
  | .stop => sendGated [.stop] .stop .null
  | .next => sendGated [.next] .next .null
  | .volume step => sendGated [.volume] .volume (volumeParams step)
  | .shuffle on => sendGated [.options] .options (.object [("random", .bool on)])
  | .loop on => sendGated [.options] .options (.object [("loop", .bool on)])
  | .filter params => sendGated [.filter] .filter params
  | .change media => executeChange media
  | .about id => about id
  | .list query => list query
  | .load => load
  | .changePlayer url => note (.cannotChangePlayer url)
  | .reconnect => note .reconnectNeedsClient
  | .quit => note .quitNeedsClient

end MediaRemote.Session.Player
