import MediaRemote.Proofs.Session.Handlers
import MediaRemote.Proofs.Session.Numbering

namespace MediaRemote.Session

open Wire (Action)
open Step PlayerStep

variable {ρ : Type}

namespace Rpc

def extend (r : Rpc ρ) (ps : List (Pending ρ)) : Rpc ρ :=
  { r with
    nextId := r.nextId + ps.length
    pending := r.pending ++ ps
    outbox := r.outbox ++ ps.map fun p => encode p.request }

def NumberedFrom (n : Nat) (ps : List (Pending ρ)) : Prop :=
  ps.map (·.request.id) = List.range' n ps.length

/-- Only while open, and only requests whose result goes to nobody, were sent in between. -/
def Extends (r r' : Rpc ρ) : Prop :=
  ∃ ps, NumberedFrom r.nextId ps ∧ (ps ≠ [] → r.isOpen = true) ∧ (∀ p ∈ ps, p.reply = none) ∧
    r' = r.extend ps

theorem extend_nil (r : Rpc ρ) : r.extend [] = r := by
  simp [extend]

theorem extend_extend (r : Rpc ρ) (ps qs : List (Pending ρ)) :
    (r.extend ps).extend qs = r.extend (ps ++ qs) := by
  simp [extend, Nat.add_assoc]

theorem Extends.refl (r : Rpc ρ) : r.Extends r :=
  ⟨[], rfl, by simp, by simp, (extend_nil r).symm⟩

theorem Extends.trans {a b c : Rpc ρ} (hab : a.Extends b) (hbc : b.Extends c) : a.Extends c := by
  obtain ⟨ps, hn, ho, hr, rfl⟩ := hab
  obtain ⟨qs, hm, hp, hs, rfl⟩ := hbc
  refine ⟨ps ++ qs, ?_, ?_, ?_, extend_extend a ps qs⟩
  · unfold NumberedFrom at *
    rw [List.map_append, hn, hm, List.length_append, extend, List.range'_append_1]
  · intro hne
    by_cases hps : ps = []
    · exact hp (by simpa [hps] using hne)
    · exact ho hps
  · intro p hp
    rcases List.mem_append.mp hp with hp | hp
    · exact hr p hp
    · exact hs p hp

theorem Extends.isOpen {r r' : Rpc ρ} (h : r.Extends r') : r'.isOpen = r.isOpen := by
  obtain ⟨ps, -, -, -, rfl⟩ := h
  rfl

theorem extends_send {r : Rpc ρ} (method : String) (value : Json.Value) :
    ∃ id r', r.send method (.value value) none = .ok (id, r') ∧ r.Extends r' := by
  have hv : (Wire.Params.value value).toValue = .ok value := rfl
  cases ho : r.isOpen with
  | false => exact ⟨none, r, send_closed hv ho method none, .refl r⟩
  | true =>
    refine ⟨_, _, send_open hv ho method none, [r.next method value none], ?_, ?_, ?_, ?_⟩
    · rfl
    · exact fun _ => ho
    · simp [next]
    · rfl

end Rpc

namespace Player

/-- A handler sends requests; it never tells that the socket opened or closed, and it leaves alone
what the player was made with. -/
structure Handles (p : Player ρ) (effects : List (Effect ρ)) (q : Player ρ) : Prop where
  rpc : p.rpc.Extends q.rpc
  observer : q.observer = p.observer
  silent : ∀ e ∈ effects, e ≠ .event .connected ∧ e ≠ .event .disconnected

structure Asks (p : Player ρ) (effects : List (Effect ρ)) (q : Player ρ) : Prop where
  rpc : p.rpc.Extends q.rpc
  same : q = { p with rpc := q.rpc }
  silent : ∀ e ∈ effects, ∀ event, e ≠ .event event

/-- What a handler does that neither starts nor stops the timer nor negotiates. -/
structure Stays (p : Player ρ) (effects : List (Effect ρ)) (q : Player ρ) : Prop
    extends Handles p effects q where
  polling : q.isPolling = p.isPolling
  capabilities : q.capabilities = p.capabilities

theorem Handles.isConnected {p q : Player ρ} {effects : List (Effect ρ)}
    (h : Handles p effects q) : q.isConnected = p.isConnected := h.rpc.isOpen

instance : Law (Handles (ρ := ρ)) where
  nothing p := ⟨.refl _, rfl, by simp⟩
  inTurn := by
    intro p q r before after h g
    refine ⟨h.rpc.trans g.rpc, g.observer.trans h.observer, ?_⟩
    intro e he
    rcases List.mem_append.mp he with he | he
    · exact h.silent e he
    · exact g.silent e he

instance : Law (Stays (ρ := ρ)) where
  nothing p := ⟨Law.nothing p, rfl, rfl⟩
  inTurn h g := ⟨Law.inTurn h.toHandles g.toHandles, g.polling.trans h.polling,
    g.capabilities.trans h.capabilities⟩

instance : Law (Asks (ρ := ρ)) where
  nothing p := ⟨.refl _, rfl, by simp⟩
  inTurn := by
    intro p q r before after h g
    refine ⟨h.rpc.trans g.rpc, ?_, ?_⟩
    · rw [g.same, h.same]
    · intro e he
      rcases List.mem_append.mp he with he | he
      · exact h.silent e he
      · exact g.silent e he

theorem Asks.stays {p q : Player ρ} {effects : List (Effect ρ)} (h : Asks p effects q) :
    Stays p effects q := by
  refine ⟨⟨h.rpc, by rw [h.same], ?_⟩, by rw [h.same]; rfl, by rw [h.same]⟩
  intro e he
  exact ⟨h.silent e he _, h.silent e he _⟩

theorem stays_of_asks {f : PlayerStep ρ} (h : Keeps Asks f) : Keeps Stays f := by
  intro p
  exact (h p).stays

theorem handles_of_asks {f : PlayerStep ρ} (h : Keeps Asks f) : Keeps Handles f := by
  intro p
  exact (h p).stays.toHandles

theorem asks_send (action : Action) (params : Json.Value) :
    Keeps (Asks (ρ := ρ)) (send action params) := by
  intro p
  obtain ⟨id, rpc, hs, he⟩ := Rpc.extends_send (r := p.rpc) action.method params
  simp only [send, request, hs]
  exact ⟨he, rfl, by simp⟩

theorem asks_note (n : Notice) : Keeps (Asks (ρ := ρ)) (note n) := by
  refine .give fun p => ⟨.refl _, rfl, ?_⟩
  simp

theorem governs_asks : GovernsCommands (Asks (ρ := ρ)) where
  note := asks_note
  send := asks_send

theorem asks_execute (command : Command) : Keeps (Asks (ρ := ρ)) (execute command) :=
  governs_asks.execute command

theorem stays_tick (now : Nat) : Keeps (Stays (ρ := ρ)) (inOrder [tick now, askPosition]) := by
  refine .cons (.modify fun p => ⟨⟨.refl _, rfl, by simp⟩, ?_, rfl⟩)
    (.cons (stays_of_asks (asks_send _ _)) .nil)
  simp [isPolling]

theorem handles_modify {f : Player ρ → Player ρ}
    (h : ∀ p, (f p).rpc = p.rpc ∧ (f p).observer = p.observer) :
    Keeps (Handles (ρ := ρ)) (Step.modify f) := by
  refine .modify fun p => ⟨?_, (h p).2, by simp⟩
  rw [(h p).1]
  exact .refl _

/-- Of all events only the two that a handler never gives out need a look. -/
theorem handles_emit {e : Event} (hc : e ≠ .connected) (hd : e ≠ .disconnected) :
    Keeps (Handles (ρ := ρ)) (emit e) := by
  intro p
  refine ⟨.refl _, rfl, ?_⟩
  intro x hx
  simp only [emit] at hx
  split at hx
  · obtain rfl := List.mem_singleton.mp hx
    exact ⟨by simpa using hc, by simpa using hd⟩
  · cases hx

theorem handles_note (n : Notice) : Keeps (Handles (ρ := ρ)) (note n) :=
  handles_of_asks (asks_note n)

theorem governs_handles : GovernsAll (Handles (ρ := ρ)) where
  note := handles_note
  send action params := handles_of_asks (asks_send action params)
  update f := handles_modify fun _ => ⟨rfl, rfl⟩
  emit e hc hd := handles_emit hc hd
  startPolling now := handles_modify fun _ => ⟨rfl, rfl⟩
  stopPolling := handles_modify fun _ => ⟨rfl, rfl⟩
  negotiated f hf := handles_modify fun p => by rw [hf p]; exact ⟨rfl, rfl⟩

theorem handles_answer (i : Inbound ρ) : Keeps Handles (answer i) := by
  intro p
  refine ⟨.refl _, rfl, ?_⟩
  intro e he
  simp only [answer] at he
  split at he
  · obtain rfl := List.mem_singleton.mp he
    simp
  · cases he

theorem handles_dispatch (now : Nat) (i : Inbound ρ) : Keeps Handles (dispatch now i) := by
  intro p
  refine Keeps.cons ?_ (.cons (.onlyIf (handles_emit (by simp) (by simp)) _) .nil) p
  split
  · exact .cons (handles_note _) (.cons (handles_emit (by simp) (by simp)) .nil)
  · exact .cons (handles_answer i) (.cons (governs_handles.route now _ i) .nil)
  · exact .skip

/-- Opening tells so and asks for the capabilities. -/
theorem opened_eq (p : Player ρ) :
    opened p =
      ({ p with
          rpc := (p.rpc.setOpen true).extend [p.rpc.next Action.capabilities.method .null none] },
        if p.observer = .live then [.event .connected] else []) := by
  have hv : (Wire.Params.value .null).toValue = .ok .null := rfl
  have ho : (p.rpc.setOpen true).isOpen = true := rfl
  have hs := Rpc.send_open hv ho Action.capabilities.method none
  simp only [opened, inOrder, Step.andThen, Step.modify, emit, load, send, request, Step.skip, hs,
    List.nil_append, List.append_nil]
  rfl

theorem opened_rpc (p : Player ρ) :
    (opened p).1.rpc = (p.rpc.setOpen true).extend [p.rpc.next "capabilities" .null none] := by
  rw [opened_eq]
  rfl

/-- Closing forgets all that was negotiated or asked for, and is told once. -/
theorem closed_eq (p : Player ρ) :
    closed p =
      ({ p with
          rpc := p.rpc.reset
          timer := none
          capabilities := .empty
          routes := .permanent
          cache := if p.isConnected then { p.cache with state := .disconnected } else p.cache },
        if p.isConnected ∧ p.observer = .live then
          [.event (.stateChanged (some (-1)) .disconnected), .event .disconnected]
        else []) := by
  cases hc : p.isConnected with
  | false => simp [closed, inOrder, Step.andThen, Step.modify, onlyIf, Step.skip, hc]
  | true =>
    by_cases hl : p.observer = .live <;>
      simp [closed, inOrder, Step.andThen, Step.modify, onlyIf, Step.skip, update, emit, hc, hl]

theorem closed_rpc (p : Player ρ) : (closed p).1.rpc = p.rpc.reset := by rw [closed_eq]

theorem resetSession_eq (p : Player ρ) :
    resetSession p = ({ (closed p).1 with rpc := .new }, (closed p).2) := by
  simp [resetSession, inOrder, Step.andThen, Step.modify, Step.skip]

theorem receive_error {p : Player ρ} {text : String} {fault : Json.Fault}
    (hr : p.rpc.receive text = .error fault) (now : Nat) :
    receive now text p = (p, [.notice (.malformedMessage fault)]) := by
  simp [receive, hr, note, Step.give]

theorem receive_eq {p : Player ρ} {text : String} {i : Inbound ρ} {rpc : Rpc ρ}
    (hr : p.rpc.receive text = .ok (i, rpc)) (now : Nat) :
    receive now text p =
      inOrder [forSome i.strayId fun id => note (.strayResponse id), dispatch now i]
        { p with rpc := rpc } := by
  simp [receive, hr, inOrder, Step.andThen, Step.modify]

/-- A message is handled once the request that it answers is no longer in flight. -/
theorem receive_ok {p : Player ρ} {text : String} {i : Inbound ρ} {rpc : Rpc ρ}
    (hr : p.rpc.receive text = .ok (i, rpc)) (now : Nat) :
    Handles { p with rpc := rpc } (receive now text p).2 (receive now text p).1 := by
  rw [receive_eq hr]
  exact Keeps.cons (.forSome (fun id => handles_note _) _) (.cons (handles_dispatch now i) .nil) _

/-- Whatever a frame says, it takes at most one request out of those in flight, and then more are
sent. -/
theorem receive_extends (p : Player ρ) (now : Nat) (text : String) :
    ∃ answered, (p.rpc.without answered).Extends (receive now text p).1.rpc := by
  cases hr : p.rpc.receive text with
  | error fault =>
    refine ⟨none, ?_⟩
    rw [receive_error hr, Rpc.without_of_absent (by simp)]
    exact .refl _
  | ok out =>
    obtain ⟨i, rpc⟩ := out
    have h := (receive_ok hr now).rpc
    obtain ⟨message, -, rfl⟩ := Rpc.receive_ok hr
    exact ⟨_, h⟩

/-- Whatever a frame says, the socket is as open as it was, and nobody is told otherwise. -/
theorem receive_silent (p : Player ρ) (now : Nat) (text : String) :
    (receive now text p).1.isConnected = p.isConnected ∧
      (receive now text p).1.observer = p.observer ∧
      ∀ e ∈ (receive now text p).2, e ≠ .event .connected ∧ e ≠ .event .disconnected := by
  cases hr : p.rpc.receive text with
  | error fault => simp [receive_error hr]
  | ok out =>
    obtain ⟨i, rpc⟩ := out
    have h := receive_ok hr now
    obtain ⟨message, -, rfl⟩ := Rpc.receive_ok hr
    exact ⟨h.isConnected, h.observer, h.silent⟩

end Player
end MediaRemote.Session
