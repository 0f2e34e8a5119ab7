import MediaRemote.Session.Player

namespace MediaRemote.Session.Player

open Step PlayerStep

variable {ρ : Type}

structure Awaited (ρ : Type) where
  player : Player ρ
  effects : List (Effect ρ)
  ticks : List Nat

/-- Awaits the timer until `deadline` inclusive, for at most as many ticks as there is fuel. -/
def awaitTicks (deadline : Nat) : Nat → Nat → Player ρ → Awaited ρ
  | 0, _, p => ⟨p, [], []⟩
  | fuel + 1, now, p =>
    match p.timer with
    | none => ⟨p, [], []⟩
    | some due =>
      let time := max now due
      if time ≤ deadline then
        let (p, effects) := inOrder [tick time, askPosition] p
        let rest := awaitTicks deadline fuel time p
        ⟨rest.player, effects ++ rest.effects, time :: rest.ticks⟩
      else ⟨p, [], []⟩

/-- Awaits the timer from `now` to `deadline`; with a positive interval there is at most one tick a
millisecond. -/
def await (now deadline : Nat) (p : Player ρ) : Awaited ρ :=
  awaitTicks deadline (deadline - now + 2) now p

end MediaRemote.Session.Player
