import Mathlib.Data.List.Induction
import MediaRemote.Connection.Lifecycle

namespace MediaRemote.Connection

/-- What the owner of a connection does. Awaiting the next event either delivers one that is queued
or takes in what arrives, and may be given up after any arrival. -/
inductive Act
  | connect
  | close
  | setEndpoint (endpoint : Url)
  | send
  | deliver
  | arrive (a : Arrival)

/-- Closing runs to its end, and sending leaves the connection as it is. -/
def act (now : Nat) (c : Connection) : Act → Arrived
  | .connect => ⟨c.connect.1, none, c.connect.2⟩
  | .close => ⟨c.close.1, none, []⟩
  | .setEndpoint endpoint => ⟨c.setEndpoint endpoint, none, []⟩
  | .send => ⟨c, none, []⟩
  | .deliver =>
    match c.deliver? with
    | some (e, d) => ⟨d, some e, []⟩
    | none => ⟨c, none, []⟩
  | .arrive a => c.arrive now a

def after (c : Connection) (acts : List (Nat × Act)) : Connection :=
  acts.foldl (fun c a => (c.act a.1 a.2).connection) c

theorem after_concat (c : Connection) (acts : List (Nat × Act)) (now : Nat) (a : Act) :
    c.after (acts ++ [(now, a)]) = ((c.after acts).act now a).connection := by
  simp [after]

theorem connect_phase (c : Connection) : c.connect.1.phase = .connecting := by
  unfold connect
  cases hp : c.cancelRetry.phase <;> simp_all [startHandshake]

/-- A close is queued for an open socket that is dropped. -/
theorem connect_queue (c : Connection) :
    c.connect.1.queue = if c.phase = .open then c.queue ++ [.close] else c.queue := by
  unfold connect
  cases hp : c.phase <;>
    simp [cancelRetry, startHandshake, dropSocket, enqueue, hp]

theorem connect_opened (c : Connection) : c.connect.1.opened = c.opened := by
  unfold connect
  cases hp : c.phase <;> simp [cancelRetry, startHandshake, dropSocket, enqueue, hp]

theorem close_phase (c : Connection) : c.close.1.phase = .disconnected := rfl

theorem lose_phase (now : Nat) (c : Connection) : (c.lose now).1.phase = .reconnectPending := by
  cases ht : c.timer <;> simp [lose, dropSocket, scheduleRetry, ht]

theorem lose_queue (now : Nat) (c : Connection) : (c.lose now).1.queue = c.queue := by
  cases ht : c.timer <;> simp [lose, dropSocket, scheduleRetry, ht]

theorem close_opened (c : Connection) : c.close.1.opened = c.opened := by
  cases hs : c.sender <;> simp [close, cancelRetry, hs]

theorem lose_opened (now : Nat) (c : Connection) : (c.lose now).1.opened = c.opened := by
  cases ht : c.timer <;> simp [lose, dropSocket, scheduleRetry, ht]

theorem socket?_of_not_open {c : Connection} (hc : c.phase ≠ .open) : c.socket? = none := by
  simp [socket?, isOpen, hc]

/-- Nothing is queued but a close, and that once. -/
def Waiting (queue : List Event) : Prop := queue = [] ∨ queue = [.close]

/-- The four ways in which the parts of a connection fit together. -/
inductive Coherent : Connection → Prop
  | nothing {endpoint delay queue opened} (hq : Waiting queue) :
    Coherent ⟨endpoint, delay, .disconnected, none, none, none, none, queue, opened⟩
  | handshake {endpoint delay queue opened} (target : Url) (hq : Waiting queue) :
    Coherent ⟨endpoint, delay, .connecting, some target, none, none, none, queue, opened⟩
  | socket {endpoint delay opened} (k : Nat) (hk : k < opened) :
    Coherent ⟨endpoint, delay, .open, none, some k, some k, none, [], opened⟩
  | timer {endpoint delay queue opened} (due : Nat) (hq : Waiting queue) :
    Coherent ⟨endpoint, delay, .reconnectPending, none, none, none, some due, queue, opened⟩

namespace Coherent

variable {c : Connection}

theorem new (endpoint : Url) (delay : Nat) : Coherent (.new endpoint delay) :=
  .nothing (.inl rfl)

theorem queue (h : Coherent c) : Waiting c.queue := by
  cases h with
  | nothing hq | handshake _ hq | timer _ hq => exact hq
  | socket => exact .inl rfl

/-- Only a socket is dropped for a new handshake, and its close is then all that is queued. -/
theorem connect (h : Coherent c) : Coherent c.connect.1 := by
  cases h with
  | nothing hq | timer _ hq => exact .handshake _ hq
  | handshake target hq => exact .handshake target hq
  | socket => exact .handshake _ (.inr rfl)

theorem close (h : Coherent c) : Coherent c.close.1 := by
  cases h <;> exact .nothing (.inl rfl)

theorem setEndpoint (h : Coherent c) (endpoint : Url) : Coherent (c.setEndpoint endpoint) := by
  cases h with
  | nothing hq => exact .nothing hq
  | handshake target hq => exact .handshake target hq
  | socket k hk => exact .socket k hk
  | timer due hq => exact .timer due hq

/-- Only a close is ever delivered from the queue, never while the socket is open. -/
theorem deliver (h : Coherent c) {e : Event} {d : Connection} (hd : c.deliver? = some (e, d)) :
    e = .close ∧ c.phase ≠ .open ∧ d = { c with queue := [] } := by
  have hq := h.queue
  unfold deliver? at hd
  split at hd
  · cases hd
  · rename_i f rest hc
    simp only [Option.some.injEq, Prod.mk.injEq] at hd
    obtain ⟨rfl, rfl⟩ := hd
    obtain ⟨rfl, rfl⟩ : f = .close ∧ rest = [] := by simpa [Waiting, hc] using hq
    refine ⟨rfl, ?_, rfl⟩
    intro ho
    cases h with
    | socket => cases hc
    | _ => cases ho

/-- A socket, or an attempt to open one, that has ended leaves nothing but a timer. -/
theorem lose (h : Coherent c) (now : Nat) : Coherent (c.lose now).1 := by
  cases h with
  | nothing hq | handshake _ hq | timer _ hq => exact .timer _ hq
  | socket => exact .timer _ (.inl rfl)

/-- What broke or was refused leaves a timer and a close that is to be delivered. -/
theorem fail (h : Coherent c) (hq : c.queue = []) (now : Nat) (fault : SocketFault)
    (notice : Notice) :
    Coherent (c.fail now fault notice).connection ∧
      (c.fail now fault notice).connection.queue = [.close] := by
  have he : (c.fail now fault notice).connection = (c.lose now).1.enqueue .close := rfl
  have hqueue : ((c.lose now).1.enqueue .close).queue = [.close] := by
    simp [enqueue, lose_queue, hq]
  refine ⟨?_, hqueue⟩
  rw [he]
  cases h <;> exact .timer _ (.inr hqueue)

theorem opens (h : Coherent c) {target : Url} (hh : c.handshake = some target)
    (hq : c.queue = []) :
    Coherent
      { c with
        handshake := none
        sender := some c.opened
        receiver := some c.opened
        opened := c.opened + 1
        phase := .open } := by
  cases h with
  | handshake =>
    obtain rfl : _ = [] := hq
    exact .socket _ (Nat.lt_succ_self _)
  | _ => cases hh

theorem retry (h : Coherent c) {due : Nat} (ht : c.timer = some due) :
    Coherent { c with timer := none, handshake := some c.endpoint, phase := .connecting } := by
  cases h with
  | timer _ hq => exact .handshake _ hq
  | _ => cases ht

theorem told (h : Coherent c) : Coherent { c with queue := [] } := by
  cases h with
  | nothing => exact .nothing (.inl rfl)
  | handshake target => exact .handshake target (.inl rfl)
  | socket k hk => exact .socket k hk
  | timer due => exact .timer due (.inl rfl)

theorem not_open_of_handshake (h : Coherent c) {target : Url} (hh : c.handshake = some target) :
    c.phase ≠ .open := by
  cases h with
  | handshake => simp
  | _ => cases hh

theorem not_open_of_timer (h : Coherent c) {due : Nat} (ht : c.timer = some due) :
    c.phase ≠ .open := by
  cases h with
  | timer => simp
  | _ => cases ht

end Coherent

inductive Arrives (now : Nat) (c : Connection) : Arrival → Arrived → Prop
  | nothing {a} (hn : c.queue ≠ [] ∨ c.expects now a = false ∨ a = .otherFrame) :
    Arrives now c a ⟨c, none, []⟩
  | opens {target} (hh : c.handshake = some target) (hq : c.queue = []) :
    Arrives now c .handshakeDone
      ⟨{ c with
          handshake := none
          sender := some c.opened
          receiver := some c.opened
          opened := c.opened + 1
          phase := .open },
        some .open, [.connected c.endpoint]⟩
  | text (s : String) (ho : c.phase = .open) :
    Arrives now c (.text s) ⟨c, some (.text s), []⟩
  | ended (ho : c.phase = .open) :
    Arrives now c .ended ⟨(c.lose now).1, some .close, (c.lose now).2⟩
  | refused {target} (fault : SocketFault) (hh : c.handshake = some target) (hq : c.queue = []) :
    Arrives now c (.handshakeFailed fault) (c.fail now fault (.connectFailed c.endpoint fault))
  | broken (fault : SocketFault) (ho : c.phase = .open) :
    Arrives now c (.broken fault) (c.fail now fault (.receiveFailed fault))
  | retry {due} (ht : c.timer = some due) (hdue : due ≤ now) (hq : c.queue = []) :
    Arrives now c .timeUp
      ⟨{ c with timer := none, handshake := some c.endpoint, phase := .connecting }, none,
        [.connecting c.endpoint]⟩

namespace Coherent

variable {c : Connection}

theorem queue_of_open (h : Coherent c) (ho : c.phase = .open) : c.queue = [] := by
  cases h with
  | socket => rfl
  | _ => cases ho

theorem socket?_of_open (h : Coherent c) (ho : c.phase = .open) : ∃ k, c.socket? = some k := by
  cases h with
  | socket k => exact ⟨k, rfl⟩
  | _ => cases ho

theorem open_of_receiver (h : Coherent c) (hr : c.receiver.isSome) : c.phase = .open := by
  cases h with
  | socket => rfl
  | _ => cases hr

theorem arrives (h : Coherent c) (now : Nat) (a : Arrival) : Arrives now c a (c.arrive now a) := by
  unfold Connection.arrive
  split
  · rename_i hexp
    have hn : c.queue ≠ [] ∨ c.expects now a = false := by simpa using hexp
    exact .nothing (hn.imp_right .inl)
  · rename_i hexp
    obtain ⟨hq, he⟩ : c.queue = [] ∧ c.expects now a = true := by simpa using hexp
    cases a with
    | handshakeDone =>
      obtain ⟨target, hh⟩ := Option.isSome_iff_exists.mp he
      exact .opens hh hq
    | handshakeFailed fault =>
      obtain ⟨target, hh⟩ := Option.isSome_iff_exists.mp he
      exact .refused fault hh hq
    | text s => exact .text s (h.open_of_receiver he)
    | otherFrame => exact .nothing (.inr (.inr rfl))
    | ended => exact .ended (h.open_of_receiver he)
    | broken fault => exact .broken fault (h.open_of_receiver he)
    | timeUp =>
      obtain ⟨due, ht, hdue⟩ : ∃ due, c.timer = some due ∧ due ≤ now := by
        simpa [expects, Option.any_eq_true] using he
      exact .retry ht hdue hq

theorem arrive (h : Coherent c) (now : Nat) (a : Arrival) :
    Coherent (c.arrive now a).connection := by
  have harr := h.arrives now a
  generalize c.arrive now a = arrived at harr ⊢
  cases harr with
  | nothing | text => exact h
  | opens hh hq => exact h.opens hh hq
  | ended => exact h.lose now
  | refused _ _ hq => exact (h.fail hq now _ _).1
  | broken _ ho => exact (h.fail (h.queue_of_open ho) now _ _).1
  | retry ht => exact h.retry ht

theorem act (h : Coherent c) (now : Nat) (a : Act) : Coherent (c.act now a).connection := by
  cases a with
  | connect => exact h.connect
  | close => exact h.close
  | setEndpoint endpoint => exact h.setEndpoint endpoint
  | send => exact h
  | deliver =>
    simp only [Connection.act]
    split
    · rename_i hd
      obtain ⟨-, -, rfl⟩ := h.deliver hd
      exact h.told
    · exact h
  | arrive a => exact h.arrive now a

end Coherent

theorem coherent_after (endpoint : Url) (delay : Nat) (acts : List (Nat × Act)) :
    Coherent ((new endpoint delay).after acts) := by
  induction acts using List.reverseRecOn with
  | nil => exact .new endpoint delay
  | append_singleton acts a ih =>
    rw [after_concat]
    exact ih.act a.1 a.2

/-- Whatever happens to a new connection, its phase says exactly what it holds: a handshake, both
halves of a socket, a timer or nothing, and never two of them. At most one event is queued, a close,
and none while the socket is open. -/
theorem phase_says_what_is_held (endpoint : Url) (delay : Nat) (acts : List (Nat × Act)) :
    let c := (new endpoint delay).after acts
    (c.phase = .connecting ↔ c.handshake.isSome) ∧
    (c.phase = .open ↔ c.sender.isSome ∧ c.receiver.isSome) ∧
    (c.phase = .reconnectPending ↔ c.timer.isSome) ∧
    (c.phase = .disconnected ↔
      c.handshake = none ∧ c.sender = none ∧ c.receiver = none ∧ c.timer = none) ∧
    [c.handshake.isSome, c.sender.isSome || c.receiver.isSome, c.timer.isSome].count true ≤ 1 ∧
    c.phase ≠ .closing ∧
    c.queue.length ≤ 1 ∧ (∀ e ∈ c.queue, e = .close) ∧ (c.phase = .open → c.queue = []) := by
  intro c
  have h : Coherent c := coherent_after endpoint delay acts
  have hq : c.queue.length ≤ 1 ∧ ∀ e ∈ c.queue, e = .close := by
    rcases h.queue with hq | hq <;> simp [hq]
  have ho := h.queue_of_open
  clear_value c
  refine ⟨?_, ?_, ?_, ?_, ?_, ?_, hq.1, hq.2, ho⟩
  all_goals cases h <;> simp

end MediaRemote.Connection
