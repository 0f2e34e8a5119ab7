import MediaRemote.Proofs.Histories
import MediaRemote.Proofs.Session.Sending

namespace MediaRemote.Session.Player

open Wire (Params)
open Step PlayerStep

variable {ρ : Type}

inductive Call (ρ : Type)
  | opened
  | closed
  | resetSession
  | request (method : String) (params : Params) (reply : Option ρ)
  | execute (command : Command)
  | askPosition
  /-- The timer ticks, if it is due. -/
  | tick
  | receive (text : String)
  | drain

structure Done (ρ : Type) where
  player : Player ρ
  effects : List (Effect ρ)
  id : Option Nat

def Done.of (r : Player ρ × List (Effect ρ)) : Done ρ := ⟨r.1, r.2, none⟩

def perform (now : Nat) (p : Player ρ) : Call ρ → Done ρ
  | .opened => .of (opened p)
  | .closed => .of (closed p)
  | .resetSession => .of (resetSession p)
  | .request method params reply =>
    let (id, p, effects) := p.request method params reply
    ⟨p, effects, id⟩
  | .execute command => .of (execute command p)
  | .askPosition => .of (askPosition p)
  | .tick => .of (onlyIf (p.timer.any (· ≤ now)) (tick now) p)
  | .receive text => .of (receive now text p)
  | .drain => .of (p.drain.2, [])

abbrev Moment (ρ : Type) := History.Moment (Player ρ) (Call ρ)

namespace Moment

variable (m : Moment ρ)

def done : Done ρ := m.before.perform m.now m.input

def after : Player ρ := m.done.player

def message? : Option Wire.Message :=
  match m.input with
  | .receive text => (Wire.Message.decoder.parse text).toOption
  | _ => none

/-- The socket closes: what was asked or negotiated is forgotten. -/
def forgets : Bool :=
  match m.input with
  | .closed | .resetSession => true
  | _ => false

end Moment

structure Run (ρ : Type) where
  pageSize : Nat
  pollInterval : Nat
  forwards : Bool
  observer : Observer
  calls : List (Nat × Call ρ)

namespace Run

def start (run : Run ρ) : Player ρ :=
  new run.pageSize run.pollInterval run.forwards run.observer

def player (run : Run ρ) : Player ρ :=
  History.stateAfter (fun now c p => (p.perform now c).player) run.start run.calls

def history (run : Run ρ) : List (Moment ρ) :=
  History.moments (fun now c p => (p.perform now c).player) run.start run.calls

/-- What holds of a new player and is kept by every call holds after every run. -/
theorem induct {P : List (Moment ρ) → Player ρ → Prop}
    (hnew : ∀ pageSize pollInterval forwards observer,
      P [] (new pageSize pollInterval forwards observer))
    (hstep : ∀ h p now c, P h p → P (h ++ [⟨p, now, c⟩]) (p.perform now c).player)
    (run : Run ρ) : P run.history run.player := by
  obtain ⟨pageSize, pollInterval, forwards, observer, calls⟩ := run
  induction calls using List.reverseRecOn with
  | nil => exact hnew pageSize pollInterval forwards observer
  | append_singleton calls c ih =>
    obtain ⟨now, c⟩ := c
    simp only [history, player, start, History.moments_concat, History.stateAfter_concat]
    exact hstep _ _ now c ih

end Run
end MediaRemote.Session.Player
