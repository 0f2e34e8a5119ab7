import MediaRemote.Proofs.Steps
import MediaRemote.Session.Player.Execute
import MediaRemote.Session.Player.Inbound

namespace MediaRemote.Session.Player

open Wire (Action Change Descriptor Position)
open Step PlayerStep

variable {ρ : Type} {R : Player ρ → List (Effect ρ) → Player ρ → Prop}

/-- The law holds of the steps that commands are put together from, and so of every command. -/
structure GovernsCommands (R : Player ρ → List (Effect ρ) → Player ρ → Prop) : Prop where
  note : ∀ n, Keeps R (note n)
  send : ∀ action params, Keeps R (send action params)

/-- The law holds of the steps that handlers are put together from; only negotiating does more. -/
structure GovernsHandlers (R : Player ρ → List (Effect ρ) → Player ρ → Prop) : Prop
    extends GovernsCommands R where
  update : ∀ f, Keeps R (update f)
  /-- No handler tells that the socket opened or closed. -/
  emit : ∀ e, e ≠ .connected → e ≠ .disconnected → Keeps R (emit e)
  startPolling : ∀ now, Keeps R (startPolling now)
  stopPolling : Keeps R stopPolling

structure GovernsAll (R : Player ρ → List (Effect ρ) → Player ρ → Prop) : Prop
    extends GovernsHandlers R where
  negotiated : ∀ f : Player ρ → Player ρ,
    (∀ p, f p = { p with routes := (f p).routes, capabilities := (f p).capabilities }) →
      Keeps R (Step.modify f)

namespace GovernsCommands

variable [Law R]

theorem sendGated (h : GovernsCommands R) (gate : List Action) (action : Action)
    (params : Json.Value) : Keeps R (Player.sendGated gate action params) := by
  intro p
  unfold Player.sendGated
  split
  · exact h.send action params p
  · exact Keeps.skip p

theorem execute (h : GovernsCommands R) (command : Command) :
    Keeps R (Player.execute command) := by
  cases command with
  | change media =>
    simp only [Player.execute]
    intro p
    simp only [executeChange]
    split
    · exact h.send _ _ p
    · exact Keeps.onlyIf (h.sendGated _ _ _) _ p
  | about id => cases id <;> exact h.send _ _
  | list query =>
    intro p
    exact Keeps.onlyIf (h.send _ _) _ p
  | load => exact h.send _ _
  | changePlayer | reconnect | quit => exact h.note _
  | _ => exact h.sendGated _ _ _

end GovernsCommands

namespace GovernsHandlers

variable [Law R]

theorem keepAndTell (h : GovernsHandlers R) (f : Cache → Cache) {e : Event} (hc : e ≠ .connected)
    (hd : e ≠ .disconnected) : Keeps R (inOrder [PlayerStep.update f, PlayerStep.emit e]) :=
  .cons (h.update f) (.cons (h.emit e hc hd) .nil)

theorem changeDuration (h : GovernsHandlers R) (now : Nat) (c : Change) :
    Keeps R (Player.changeDuration now c) := by
  intro p
  simp only [Player.changeDuration]
  split
  · exact Keeps.cons (h.update _) (.cons (h.emit _ (by simp) (by simp))
      (.cons (h.startPolling now) .nil)) p
  · exact Keeps.onlyIf (.cons (h.update _) (.cons (h.emit _ (by simp) (by simp))
      (.cons h.stopPolling .nil))) _ p

theorem followList (h : GovernsHandlers R) (c : Change) : Keeps R (Player.followList c) := by
  intro p
  exact Keeps.forSome (fun id => .onlyIf (h.send _ _) _) _ p

theorem setNext (h : GovernsHandlers R) (next : Int) : Keeps R (Player.setNext next) :=
  h.keepAndTell _ (by simp) (by simp)

theorem setVolume (h : GovernsHandlers R) (level : Option Int) : Keeps R (Player.setVolume level) :=
  h.keepAndTell _ (by simp) (by simp)

theorem change (h : GovernsHandlers R) (now : Nat) (c : Change) :
    Keeps R (Player.change now c) := by
  refine .cons (.forSome (fun id => h.update _) _) ?_
  refine .cons (.forSome (fun state => h.keepAndTell _ (by simp) (by simp)) _) ?_
  refine .cons (h.changeDuration now c) ?_
  refine .cons (.forSome (fun media => h.keepAndTell _ (by simp) (by simp)) _) ?_
  refine .cons (.forSome (fun info => h.keepAndTell _ (by simp) (by simp)) _) ?_
  refine .cons (.forSome (fun options => h.keepAndTell _ (by simp) (by simp)) _) ?_
  refine .cons (h.followList c) ?_
  exact .cons (.forSome h.setNext _) (.cons (.onlyIf (h.setVolume _) _) .nil)

theorem changeState (h : GovernsHandlers R) (c : Change) : Keeps R (Player.changeState c) := by
  refine .forSome (fun state => .cons (.forSome (fun id => h.update _) _) ?_) _
  exact h.keepAndTell _ (by simp) (by simp)

theorem reportInfo (h : GovernsHandlers R) (c : Change) : Keeps R (Player.reportInfo c) := by
  unfold Player.reportInfo
  split
  · exact h.emit _ (by simp) (by simp)
  · exact .forSome (fun m => h.note _) _

theorem changePosition (h : GovernsHandlers R) (a : Position) :
    Keeps R (Player.changePosition a) := by
  intro p
  simp only [Player.changePosition]
  split
  · exact Keeps.cons (h.update _) (.cons (h.emit _ (by simp) (by simp))
      (.cons h.stopPolling .nil)) p
  · exact h.keepAndTell _ (by simp) (by simp) p

omit [Law R] in
theorem usable (h : GovernsHandlers R) {α : Type} (slot : Slot) (d : Json.Decoder α)
    (payload : Json.Value) {f : α → PlayerStep ρ} (hf : ∀ a, Keeps R (f a)) :
    Keeps R (Player.usable slot d payload f) := by
  unfold Player.usable
  split
  · exact hf _
  · exact h.note _

/-- Every handler but that of the capabilities. -/
theorem invoke (h : GovernsHandlers R) (now : Nat) {slot : Slot} (hs : slot ≠ .capabilities)
    (payload : Json.Value) (request : Option Wire.Request) :
    Keeps R (Player.invoke now slot payload request) := by
  cases slot with
  | capabilities => exact absurd rfl hs
  | change => exact h.usable _ _ _ (h.change now)
  | state => exact h.usable _ _ _ h.changeState
  | next => exact h.usable _ _ _ fun c => .forSome h.setNext _
  | list => exact h.usable _ _ _ fun l => h.keepAndTell _ (by simp) (by simp)
  | options => exact h.keepAndTell _ (by simp) (by simp)
  | filter =>
    intro p
    exact Keeps.onlyIf (h.send _ _) _ p
  | info => exact h.usable _ _ _ h.reportInfo
  | setInfo => exact h.emit _ (by simp) (by simp)
  | volume => exact h.usable _ _ _ fun c => h.setVolume _
  | position => exact h.usable _ _ _ h.changePosition

end GovernsHandlers

namespace GovernsAll

variable [Law R]

theorem announce (h : GovernsAll R) (a : Wire.ActionDescriptor) :
    Keeps R (Player.announce a) := by
  refine .cons (h.negotiated _ fun _ => rfl) (.cons ?_ .nil)
  split
  · exact h.note _
  · exact .skip

theorem negotiate (h : GovernsAll R) (d : Descriptor) : Keeps R (Player.negotiate d) := by
  refine .cons (h.negotiated _ fun _ => rfl) ?_
  refine .cons (h.emit _ (by simp) (by simp)) ?_
  refine .cons (.inOrder ?_) ?_
  · intro f hf
    obtain ⟨a, -, rfl⟩ := List.mem_map.mp hf
    exact h.announce a
  refine .cons (h.note _) ?_
  exact .cons (h.emit _ (by simp) (by simp)) (.cons (.onlyIf (h.send _ _) _) .nil)

theorem invoke (h : GovernsAll R) (now : Nat) (slot : Slot) (payload : Json.Value)
    (request : Option Wire.Request) : Keeps R (Player.invoke now slot payload request) := by
  by_cases hs : slot = .capabilities
  · subst hs
    exact h.usable _ _ _ h.negotiate
  · exact h.toGovernsHandlers.invoke now hs payload request

theorem route (h : GovernsAll R) (now : Nat) (method : String) (i : Inbound ρ) :
    Keeps R (Player.route now method i) := by
  intro p
  simp only [Player.route]
  split
  · exact h.invoke now _ _ _ p
  · exact Keeps.skip p

end GovernsAll
end MediaRemote.Session.Player
