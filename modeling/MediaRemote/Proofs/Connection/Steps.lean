import MediaRemote.Proofs.Connection.Coherence

namespace MediaRemote.Connection

def Engaged (c : Connection) : Prop := c.handshake.isSome ∨ c.sender.isSome

/-- There is a socket, or one is sought, or one will be. -/
def Alive (c : Connection) : Prop := c.Engaged ∨ c.timer.isSome

def Quiet (c : Connection) : Prop := ¬ c.Alive ∧ c.queue = []

def Act.Steers (a : Act) : Prop := a = .connect ∨ a = .close

/-- What arrives ends the handshake or the socket that is held; nothing is left to tell first. -/
inductive Loses (c : Connection) : Act → Prop
  | refused {fault} (hh : c.handshake.isSome) (hq : c.queue = []) :
    Loses c (.arrive (.handshakeFailed fault))
  | ended (hr : c.receiver.isSome) (hq : c.queue = []) : Loses c (.arrive .ended)
  | broken {fault} (hr : c.receiver.isSome) (hq : c.queue = []) : Loses c (.arrive (.broken fault))

/-- The timer is due, and nothing is left to tell first. -/
inductive Tries (now : Nat) (c : Connection) : Act → Prop
  | due {due} (ht : c.timer = some due) (hdue : due ≤ now) (hq : c.queue = []) :
    Tries now c (.arrive .timeUp)

/-- Why a socket, or the attempt to open one, is lost, if it does not end in good order. -/
def Arrival.fault? : Arrival → Option SocketFault
  | .handshakeFailed fault | .broken fault => some fault
  | _ => none

@[simp]
theorem connect_timer (c : Connection) : c.connect.1.timer = none := by
  unfold connect
  cases hp : c.phase <;> simp [cancelRetry, startHandshake, dropSocket, enqueue, hp]

@[simp]
theorem connect_delay (c : Connection) : c.connect.1.delay = c.delay := by
  unfold connect
  cases hp : c.phase <;> simp [cancelRetry, startHandshake, dropSocket, enqueue, hp]

theorem close_eq (c : Connection) :
    c.close.1 = { c with
      handshake := none, sender := none, receiver := none, timer := none, queue := [],
      phase := .disconnected } := by
  cases hs : c.sender <;> simp [close, cancelRetry, hs]

theorem lose_eq {c : Connection} (ht : c.timer = none) (now : Nat) :
    (c.lose now).1 = { c with
      handshake := none, sender := none, receiver := none, timer := some (now + c.delay),
      phase := .reconnectPending } := by
  simp [lose, dropSocket, scheduleRetry, ht]

theorem close_quiet (c : Connection) : c.close.1.Quiet := by
  simp [close_eq, Quiet, Alive, Engaged]

theorem lose_not_engaged (now : Nat) (c : Connection) : ¬ (c.lose now).1.Engaged := by
  cases ht : c.timer <;> simp [Engaged, lose, dropSocket, scheduleRetry, ht]

/-- What a step can come to; every law of single steps is read off it. -/
inductive Passes (now : Nat) (c : Connection) : Act → Option Event → Connection → Prop
  | rests {a} (hc : a ≠ .connect) (hd : a ≠ .close) (hl : ¬ Loses c a) (ht : ¬ Tries now c a) :
    Passes now c a none c
  | points (endpoint : Url) : Passes now c (.setEndpoint endpoint) none (c.setEndpoint endpoint)
  | connects : Passes now c .connect none c.connect.1
  | closes : Passes now c .close none c.close.1
  | delivers (hq : c.queue = [.close]) (hn : c.phase ≠ .open) :
    Passes now c .deliver (some .close) { c with queue := [] }
  | opens {target} (hh : c.handshake = some target) (hq : c.queue = []) :
    Passes now c (.arrive .handshakeDone) (some .open)
      { c with
        handshake := none
        sender := some c.opened
        receiver := some c.opened
        opened := c.opened + 1
        phase := .open }
  | hears (s : String) (ho : c.phase = .open) :
    Passes now c (.arrive (.text s)) (some (.text s)) c
  | ends (ho : c.phase = .open) : Passes now c (.arrive .ended) (some .close) (c.lose now).1
  | fails {x fault} (hl : Loses c (.arrive x)) (hx : x.fault? = some fault) :
    Passes now c (.arrive x) (some (.error fault)) ((c.lose now).1.enqueue .close)
  | retries {due} (ht : c.timer = some due) (hdue : due ≤ now) (hq : c.queue = []) :
    Passes now c (.arrive .timeUp) none
      { c with timer := none, handshake := some c.endpoint, phase := .connecting }

theorem Loses.queue {c : Connection} {a : Act} (hl : Loses c a) : c.queue = [] := by
  cases hl with
  | refused _ hq | ended _ hq | broken _ hq => exact hq

theorem Loses.not_tries {now : Nat} {c : Connection} {a : Act} (hl : Loses c a) :
    ¬ Tries now c a := by
  intro ht
  cases ht
  cases hl

/-- What is not taken in ends nothing and starts nothing. -/
theorem idle_of_nothing {now : Nat} {c : Connection} {x : Arrival}
    (hn : c.queue ≠ [] ∨ c.expects now x = false ∨ x = .otherFrame) :
    ¬ Loses c (.arrive x) ∧ ¬ Tries now c (.arrive x) := by
  constructor
  · intro hl
    cases hl with
    | refused hh hq => simp [expects, hh, hq] at hn
    | ended hr hq | broken hr hq => simp [expects, hr, hq] at hn
  · intro ht
    cases ht with
    | due ht hdue hq => simp [expects, ht, hdue, hq] at hn

theorem idle_of_unprompted (now : Nat) (c : Connection) {a : Act} (ha : ∀ x, a ≠ .arrive x) :
    ¬ Loses c a ∧ ¬ Tries now c a := by
  constructor
  · intro hl
    cases hl with
    | refused | ended | broken => exact ha _ rfl
  · intro ht
    cases ht with
    | due => exact ha _ rfl

namespace Coherent

variable {c : Connection}

theorem engaged_of_open (h : Coherent c) (ho : c.phase = .open) : c.Engaged := by
  cases h with
  | socket => exact .inr rfl
  | _ => cases ho

theorem timer_of_engaged (h : Coherent c) (he : c.Engaged) : c.timer = none := by
  cases h with
  | timer => rcases he with he | he <;> cases he
  | _ => rfl

theorem timer_of_open (h : Coherent c) (ho : c.phase = .open) : c.timer = none :=
  h.timer_of_engaged (h.engaged_of_open ho)

theorem not_engaged_of_timer (h : Coherent c) {due : Nat} (ht : c.timer = some due) :
    ¬ c.Engaged := by
  intro he
  rw [h.timer_of_engaged he] at ht
  cases ht

theorem engaged_of_loses (h : Coherent c) {a : Act} (hl : Loses c a) : c.Engaged := by
  cases hl with
  | refused hh => exact .inl hh
  | ended hr | broken hr => exact h.engaged_of_open (h.open_of_receiver hr)

theorem not_open_of_queue (h : Coherent c) (hq : c.queue = [.close]) : c.phase ≠ .open := by
  intro ho
  rw [h.queue_of_open ho] at hq
  cases hq

theorem receiver_of_open (h : Coherent c) (ho : c.phase = .open) : c.receiver.isSome := by
  cases h with
  | socket => rfl
  | _ => cases ho

theorem loses_of_open (h : Coherent c) (ho : c.phase = .open) : Loses c (.arrive .ended) :=
  .ended (h.receiver_of_open ho) (h.queue_of_open ho)

theorem handshake_of_timer (h : Coherent c) {due : Nat} (ht : c.timer = some due) :
    c.handshake = none := by
  cases h with
  | timer => rfl
  | _ => cases ht

theorem passes (h : Coherent c) (now : Nat) (a : Act) :
    Passes now c a (c.act now a).event (c.act now a).connection := by
  cases a with
  | connect => exact .connects
  | close => exact .closes
  | setEndpoint endpoint => exact .points endpoint
  | send =>
    obtain ⟨hl, ht⟩ := idle_of_unprompted now c (a := .send) (by simp)
    exact .rests (by simp) (by simp) hl ht
  | deliver =>
    simp only [Connection.act]
    split
    · rename_i e d hd
      obtain ⟨rfl, hn, rfl⟩ := h.deliver hd
      refine .delivers ?_ hn
      rcases h.queue with hq | hq
      · simp [deliver?, hq] at hd
      · exact hq
    · obtain ⟨hl, ht⟩ := idle_of_unprompted now c (a := .deliver) (by simp)
      exact .rests (by simp) (by simp) hl ht
  | arrive a =>
    have harr := h.arrives now a
    simp only [Connection.act]
    generalize c.arrive now a = arrived at harr ⊢
    cases harr with
    | nothing hn =>
      obtain ⟨hl, ht⟩ := idle_of_nothing hn
      exact .rests (by simp) (by simp) hl ht
    | opens hh hq => exact .opens hh hq
    | text s ho => exact .hears s ho
    | ended ho => exact .ends ho
    | refused fault hh hq => exact .fails (.refused (by simp [hh]) hq) rfl
    | broken fault ho => exact .fails (.broken (h.receiver_of_open ho) (h.queue_of_open ho)) rfl
    | retry ht hdue hq => exact .retries ht hdue hq

end Coherent

section Passes

variable {now : Nat} {c d : Connection} {a : Act} {e : Option Event}

theorem Passes.delay (hp : Passes now c a e d) : d.delay = c.delay := by
  cases hp with
  | connects => exact connect_delay c
  | closes => rw [close_eq]
  | ends | fails =>
    cases ht : c.timer <;> simp [lose, dropSocket, scheduleRetry, enqueue, ht]
  | _ => rfl

/-- A socket opens only where none was held, and nothing was left to tell. -/
theorem Passes.open_event (h : Coherent c) (hp : Passes now c a (some .open) d) :
    c.phase ≠ .open ∧ c.queue = [] ∧ d.phase = .open := by
  cases hp with
  | opens hh hq => exact ⟨h.not_open_of_handshake hh, hq, rfl⟩

theorem Passes.text_event {s : String} (hp : Passes now c a (some (.text s)) d) :
    c.phase = .open := by
  cases hp with
  | hears _ ho => exact ho

theorem Passes.error_event {fault : SocketFault} (hp : Passes now c a (some (.error fault)) d) :
    d.queue = [.close] := by
  cases hp with
  | fails hl => simp [enqueue, lose_queue, hl.queue]

/-- A close that is queued comes before anything else. -/
theorem Passes.queued {x : Event} (h : Coherent c) (hq : c.queue = [.close])
    (hp : Passes now c a (some x) d) : x = .close := by
  cases hp with
  | delivers | ends => rfl
  | opens _ hn =>
    rw [hq] at hn
    cases hn
  | fails hl =>
    have hn := hl.queue
    rw [hq] at hn
    cases hn
  | hears s ho => exact absurd ho (h.not_open_of_queue hq)

/-- A socket that is open was open before, undisturbed, or has just opened. -/
theorem Passes.to_open (hp : Passes now c a e d) (ho : d.phase = .open) :
    e = some .open ∨ (c.phase = .open ∧ e ≠ some .close ∧ ¬ a.Steers) := by
  cases hp with
  | opens => exact .inl rfl
  | rests hc hd => exact .inr ⟨ho, by simp, by simp [Act.Steers, hc, hd]⟩
  | points => exact .inr ⟨ho, by simp, by simp [Act.Steers]⟩
  | delivers _ hn => exact absurd ho hn
  | hears s => exact .inr ⟨ho, by simp, by simp [Act.Steers]⟩
  | connects => simp [connect_phase] at ho
  | closes => simp [close_phase] at ho
  | ends | fails => simp [enqueue, lose_phase] at ho
  | retries => cases ho

/-- Until its close is told, a socket is open or has its close queued. -/
theorem Passes.owed (h : Coherent c) (hp : Passes now c a e d) (he : e ≠ some .close)
    (ha : a ≠ .close) (hc : c.phase = .open ∨ c.queue = [.close]) :
    d.phase = .open ∨ d.queue = [.close] := by
  cases hp with
  | rests | points | hears => exact hc
  | connects =>
    right
    rw [connect_queue]
    rcases hc with ho | hq
    · simp [ho, h.queue_of_open ho]
    · simp [h.not_open_of_queue hq, hq]
  | closes => exact absurd rfl ha
  | delivers | ends => exact absurd rfl he
  | opens => exact .inl rfl
  | fails hl => exact .inr (by simp [enqueue, lose_queue, hl.queue])
  | retries ht _ hq =>
    rcases hc with ho | hc
    · exact absurd ho (h.not_open_of_timer ht)
    · rw [hq] at hc
      cases hc

/-- What is queued stays queued while nothing is delivered. -/
theorem Passes.stays_queued (h : Coherent c) (hp : Passes now c a none d) (ha : a ≠ .close)
    (hq : c.queue = [.close]) : d.queue = [.close] := by
  cases hp with
  | rests | points => exact hq
  | connects =>
    rw [connect_queue, if_neg (h.not_open_of_queue hq)]
    exact hq
  | closes => exact absurd rfl ha
  | retries _ _ hn =>
    rw [hq] at hn
    cases hn

theorem connect_alive (h : Coherent c) : c.connect.1.Alive := by
  have hd := h.connect
  have hphase := connect_phase c
  generalize c.connect.1 = d at hd hphase ⊢
  cases hd with
  | handshake => exact .inl (.inl rfl)
  | _ => cases hphase

theorem Passes.connected (h : Coherent c) (hp : Passes now c .connect e d) : d.Alive := by
  cases hp with
  | rests hc => exact absurd rfl hc
  | connects => exact connect_alive h

theorem Passes.alive (h : Coherent c) (hp : Passes now c a e d) (ha : a ≠ .close)
    (hc : c.Alive) : d.Alive := by
  cases hp with
  | rests | points | hears | delivers => exact hc
  | connects => exact connect_alive h
  | closes => exact absurd rfl ha
  | opens => exact .inl (.inr rfl)
  | ends ho =>
    rw [lose_eq (h.timer_of_open ho)]
    exact .inr rfl
  | fails hl =>
    rw [lose_eq (h.timer_of_engaged (h.engaged_of_loses hl))]
    exact .inr rfl
  | retries => exact .inl (.inl rfl)

/-- A loss is what leaves neither a handshake nor a socket where there was one. -/
theorem Passes.loses_iff (h : Coherent c) (hp : Passes now c a e d) :
    Loses c a ↔ (∃ x, a = .arrive x) ∧ c.Engaged ∧ ¬ d.Engaged := by
  have hnot {a : Act} {d : Connection} (hl : ¬ Loses c a) (hd : c.Engaged → d.Engaged) :
      Loses c a ↔ (∃ x, a = .arrive x) ∧ c.Engaged ∧ ¬ d.Engaged :=
    ⟨fun h => absurd h hl, fun ⟨_, he, hn⟩ => absurd (hd he) hn⟩
  have hloses {x : Arrival} {d : Connection} (hl : Loses c (.arrive x)) (hd : ¬ d.Engaged) :
      Loses c (.arrive x) ↔ (∃ y, Act.arrive x = .arrive y) ∧ c.Engaged ∧ ¬ d.Engaged :=
    ⟨fun hl => ⟨⟨x, rfl⟩, h.engaged_of_loses hl, hd⟩, fun _ => hl⟩
  cases hp with
  | rests _ _ hl => exact hnot hl id
  | points | delivers | hears => exact hnot nofun id
  | connects | closes => exact ⟨nofun, nofun⟩
  | opens => exact hnot nofun fun _ => .inr rfl
  | ends ho => exact hloses (h.loses_of_open ho) (lose_not_engaged now c)
  | fails hl => exact hloses hl (lose_not_engaged now c)
  | retries => exact hnot nofun fun _ => .inl rfl

/-- An attempt is what starts a handshake where there was none, without being told to. -/
theorem Passes.tries_iff (h : Coherent c) (hp : Passes now c a e d) :
    Tries now c a ↔ (∃ x, a = .arrive x) ∧ c.handshake = none ∧ d.handshake.isSome := by
  have hnot {a : Act} {d : Connection} (ht : ¬ Tries now c a)
      (hd : d.handshake.isSome → c.handshake.isSome) :
      Tries now c a ↔ (∃ x, a = .arrive x) ∧ c.handshake = none ∧ d.handshake.isSome := by
    refine ⟨fun h => absurd h ht, ?_⟩
    rintro ⟨-, hn, hs⟩
    have hc := hd hs
    rw [hn] at hc
    cases hc
  have hlost {d : Connection} (hd : ¬ d.Engaged) (hs : d.handshake.isSome) :
      c.handshake.isSome := absurd (.inl hs) hd
  cases hp with
  | rests _ _ _ ht => exact hnot ht id
  | points | delivers | hears => exact hnot nofun id
  | connects | closes => exact ⟨nofun, nofun⟩
  | opens => exact hnot nofun nofun
  | ends => exact hnot nofun (hlost (lose_not_engaged now c))
  | fails hl => exact hnot hl.not_tries (hlost (lose_not_engaged now c))
  | retries ht hdue hq =>
    exact ⟨fun _ => ⟨⟨_, rfl⟩, h.handshake_of_timer ht, rfl⟩, fun _ => .due ht hdue hq⟩

/-- A refusal or a break is told as an error, and a close is to follow. -/
theorem Passes.failed {x : Arrival} {fault : SocketFault} (hp : Passes now c (.arrive x) e d)
    (hl : Loses c (.arrive x)) (hx : x.fault? = some fault) :
    e = some (.error fault) ∧ d.queue = [.close] := by
  cases hp with
  | rests _ _ hn => exact absurd hl hn
  | fails _ hy =>
    obtain rfl := Option.some.inj (hy.symm.trans hx)
    exact ⟨rfl, by simp [enqueue, lose_queue, hl.queue]⟩
  | _ => cases hx

theorem Passes.ended (hp : Passes now c (.arrive .ended) e d) (hl : Loses c (.arrive .ended)) :
    e = some .close ∧ d.queue = [] := by
  cases hp with
  | rests _ _ hn => exact absurd hl hn
  | ends => exact ⟨rfl, by rw [lose_queue, hl.queue]⟩
  | fails _ hx => cases hx

theorem Passes.attempted (hp : Passes now c a e d) (ht : Tries now c a) :
    d.handshake = some c.endpoint := by
  cases hp with
  | rests _ _ _ hn => exact absurd ht hn
  | fails hl => exact absurd ht hl.not_tries
  | retries => rfl
  | _ => cases ht

/-- A loss sets the timer. -/
theorem Passes.scheduled (h : Coherent c) (hp : Passes now c a e d) (hl : Loses c a) :
    d.timer = some (now + c.delay) := by
  have ht := h.timer_of_engaged (h.engaged_of_loses hl)
  cases hp with
  | rests _ _ hn => exact absurd hl hn
  | ends | fails => simp [lose_eq ht, enqueue]
  | _ => cases hl

/-- The timer is set by a loss, and lasts until it is used or called off. -/
theorem Passes.timer (h : Coherent c) (hp : Passes now c a e d) (due : Nat) :
    d.timer = some due ↔ (Loses c a ∧ now + c.delay = due) ∨
      (c.timer = some due ∧ ¬ Loses c a ∧ ¬ Tries now c a ∧ ¬ a.Steers) := by
  by_cases hl : Loses c a
  · simp [hp.scheduled h hl, hl]
  have hsame {a : Act} (hl : ¬ Loses c a) (ht : ¬ Tries now c a) (hs : ¬ a.Steers) :
      c.timer = some due ↔ (Loses c a ∧ now + c.delay = due) ∨
        (c.timer = some due ∧ ¬ Loses c a ∧ ¬ Tries now c a ∧ ¬ a.Steers) := by
    simp [hl, ht, hs]
  cases hp with
  | rests hc hd _ ht => exact hsame hl ht (by simp [Act.Steers, hc, hd])
  | points | delivers | hears => exact hsame hl nofun (by simp [Act.Steers])
  | connects => simp [hl, Act.Steers]
  | closes => simp [close_eq, hl, Act.Steers]
  | opens hh => simp [hl, h.timer_of_engaged (.inl (by simp [hh]))]
  | ends ho => exact absurd (h.loses_of_open ho) hl
  | fails hn => exact absurd hn hl
  | retries ht hdue hq =>
    have htries : Tries now c (.arrive .timeUp) := .due ht hdue hq
    simp [hl, htries]

theorem Passes.closed (hp : Passes now c .close e d) : d.Quiet := by
  cases hp with
  | rests _ hd => exact absurd rfl hd
  | closes => exact close_quiet c

theorem Passes.quiet (h : Coherent c) (hp : Passes now c a e d) (ha : a ≠ .connect)
    (hc : c.Quiet) : e = none ∧ d.Quiet := by
  obtain ⟨hn, hq⟩ := hc
  cases hp with
  | rests | points => exact ⟨rfl, hn, hq⟩
  | connects => exact absurd rfl ha
  | closes => exact ⟨rfl, close_quiet c⟩
  | delivers hd =>
    rw [hq] at hd
    cases hd
  | opens hh => exact absurd (.inl (.inl (by simp [hh]))) hn
  | hears _ ho | ends ho => exact absurd (.inl (h.engaged_of_open ho)) hn
  | fails hl => exact absurd (.inl (h.engaged_of_loses hl)) hn
  | retries ht => exact absurd (.inr (by simp [ht])) hn

end Passes

end MediaRemote.Connection
