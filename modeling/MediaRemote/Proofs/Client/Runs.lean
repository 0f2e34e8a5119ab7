import Mathlib.Data.List.Chain
import MediaRemote.Proofs.Client.Turns
import MediaRemote.Proofs.Histories

namespace MediaRemote.Client

open Connection (Coherent)
open Session (Player PlayerStep Event)

variable {ρ : Type}

/-- A client with a new player, before its loop runs: just made, or told to connect since. -/
inductive Starts [Url.Idna] (s : Settings) (observer : Session.Observer) : Client ρ → Prop
  | made {c} (h : Client.new s (playerOf s observer) = .ok c) : Starts s observer c
  | connects {c} (h : Starts s observer c) : Starts s observer (connect c).1

theorem starts_of_resolve [Url.Idna] {s : Settings} {endpoint : Url}
    (h : Endpoint.resolve s.url s.origin = .ok endpoint) (observer : Session.Observer) :
    Starts (ρ := ρ) s observer
      (connect ⟨.new endpoint s.reconnectDelay, playerOf s observer, s.origin⟩).1 := by
  refine .connects (.made ?_)
  rw [Client.new, h]
  rfl

attribute [local instance] Url.Idna.ascii in
theorem plain_address_starts : ∃ endpoint,
    Starts (ρ := Nat) (.withUrl "ws://h/p") .live
      (connect ⟨.new endpoint 3000, playerOf (.withUrl "ws://h/p") .live, none⟩).1 := by
  have hs : (Endpoint.resolve "ws://h/p" none).toOption.isSome = true := by decide +kernel
  cases hr : Endpoint.resolve "ws://h/p" none with
  | error fault => simp [hr, Except.toOption] at hs
  | ok endpoint => exact ⟨endpoint, starts_of_resolve (s := .withUrl "ws://h/p") hr .live⟩

structure Taken (ρ : Type) where
  now : Nat
  input : Input
  before : Client ρ

def Taken.turn [Url.Idna] (t : Taken ρ) : Turn ρ := Client.turn t.now t.input t.before

structure Run (ρ : Type) where
  client : Client ρ
  /-- Oldest first. -/
  taken : List (Taken ρ)
  goesOn : Bool

def Run.step [Url.Idna] (r : Run ρ) (now : Nat) (i : Input) : Run ρ :=
  if r.goesOn then
    let t : Taken ρ := ⟨now, i, r.client⟩
    ⟨t.turn.client, r.taken ++ [t], t.turn.goesOn⟩
  else r

def run [Url.Idna] (c : Client ρ) (inputs : List (Nat × Input)) : Run ρ :=
  inputs.foldl (fun r i => r.step i.1 i.2) ⟨c, [], true⟩

def Run.events [Url.Idna] (r : Run ρ) : List Event :=
  r.taken.flatMap fun t => t.turn.effects.filterMap Effect.event?

theorem run_concat [Url.Idna] (c : Client ρ) (inputs : List (Nat × Input)) (i : Nat × Input) :
    run c (inputs ++ [i]) = (run c inputs).step i.1 i.2 := by
  simp [run]

/-- Only being told to quit, or having nobody left to give commands, ends the loop. -/
theorem turn_goesOn [Url.Idna] (now : Nat) (i : Input) (c : Client ρ) :
    (turn now i c).goesOn = !i.ends := by
  cases i with
  | command command => cases command <;> rfl
  | _ => rfl

theorem turn_ends [Url.Idna] {i : Input} (hi : i.ends = true) (now : Nat) (c : Client ρ) :
    turn now i c = .of false (stop c) := by
  cases i with
  | commandsEnded => rfl
  | command command =>
    cases command with
    | quit => rfl
    | _ => cases hi
  | _ => cases hi

/-- Connection and player fit together, up to a close that is still to be told. -/
structure Fits (d : Connection) (p : Player ρ) : Prop where
  coherent : Coherent d
  connected : d.phase = .open → p.isConnected = true
  closing : p.isConnected = true → d.phase ≠ .open → .close ∈ d.queue
  negotiated : p.isPolling = true ∨ p.capabilities.isEmpty = false → p.isConnected = true

structure Synced (c : Client ρ) : Prop where
  fits : Fits c.connection c.player
  idle : c.player.rpc.outbox = []

/-- With a player that is not connected, any connection fits that is not open. -/
theorem fits_disconnected {d : Connection} {p : Player ρ} (hd : Coherent d)
    (hne : d.phase ≠ .open) (hp : p.isConnected = false) (ht : p.isPolling = false)
    (hc : p.capabilities.isEmpty = true) : Fits d p where
  coherent := hd
  connected ho := absurd ho hne
  closing h := by simp [hp] at h
  negotiated h := by simp [ht, hc] at h

theorem fits_closed {d : Connection} (hd : Coherent d) (hne : d.phase ≠ .open) (p : Player ρ) :
    Fits d (Player.closed p).1 := by
  rw [Player.closed_eq]
  exact fits_disconnected hd hne rfl rfl rfl

theorem fits_resetSession {d : Connection} (hd : Coherent d) (hne : d.phase ≠ .open)
    (p : Player ρ) : Fits d (Player.resetSession p).1 := by
  rw [Player.resetSession_eq, Player.closed_eq]
  exact fits_disconnected hd hne rfl rfl rfl

/-- The player is left alone while the socket is lost or sought: if it still believes in a socket,
its close is queued. -/
theorem Fits.move {c d : Connection} {p : Player ρ} (h : Fits c p) (hd : Coherent d)
    (hne : d.phase ≠ .open) (hq : c.phase = .open → .close ∈ d.queue)
    (hk : .close ∈ c.queue → .close ∈ d.queue) : Fits d p where
  coherent := hd
  connected ho := absurd ho hne
  closing hp _ := by
    by_cases ho : c.phase = .open
    · exact hq ho
    · exact hk (h.closing hp ho)
  negotiated := h.negotiated

/-- A player that is connected while a handshake is in flight has a close to be told of first. -/
theorem Fits.closed_of_handshake {c : Connection} {p : Player ρ} (h : Fits c p) {target : Url}
    (hh : c.handshake = some target) (hq : c.queue = []) : p.isConnected = false := by
  by_contra hp
  have hp : p.isConnected = true := by simpa using hp
  have hm := h.closing hp (h.coherent.not_open_of_handshake hh)
  rw [hq] at hm
  cases hm

/-- Whatever course a turn takes, connection and player fit together at its end. -/
theorem fits_course {now : Nat} {c d : Connection} {p : Player ρ} {f : PlayerStep ρ}
    {e : Option Connection.Event} {target : Option Url} (h : Fits c p)
    (hc : Course now c e target d f) : Fits d (f p).1 := by
  cases hc with
  | stays hf =>
    have hs := hf p
    refine ⟨h.coherent, ?_, ?_, ?_⟩
    · rw [hs.isConnected]
      exact h.connected
    · rw [hs.isConnected]
      exact h.closing
    · rw [hs.isConnected, hs.polling, hs.capabilities]
      exact h.negotiated
  | opens hh hq =>
    rw [Player.opened_eq]
    exact ⟨h.coherent.opens hh hq, fun _ => rfl, fun _ hne => absurd rfl hne, fun _ => rfl⟩
  | hears s ho =>
    have hs := (Player.receive_silent p now s).1.trans (h.connected ho)
    exact ⟨h.coherent, fun _ => hs, fun _ hne => absurd ho hne, fun _ => hs⟩
  | ends ho =>
    exact fits_closed (h.coherent.lose now) (by simp [Connection.lose_phase]) p
  | fails fault notice hq =>
    have hd := h.coherent.fail hq now fault notice
    refine h.move hd.1 ?_ ?_ ?_
    · simp [Connection.fail, Connection.enqueue, Connection.lose_phase]
    · simp [hd.2]
    · simp [hd.2]
  | retries ht =>
    refine h.move (h.coherent.retry ht) (by simp) ?_ id
    intro ho
    exact absurd ho (h.coherent.not_open_of_timer ht)
  | learns ho => exact fits_closed h.coherent.told ho p
  | reconnects =>
    refine h.move h.coherent.connect (by simp [Connection.connect_phase]) ?_ ?_
    · intro ho
      simp [Connection.connect_queue, ho]
    · intro hq
      rw [Connection.connect_queue]
      split
      · exact List.mem_append_left _ hq
      · exact hq
  | changes endpoint =>
    refine fits_resetSession ((h.coherent.close.setEndpoint endpoint).connect) ?_ p
    simp [Connection.connect_phase]
  | stops => exact fits_closed h.coherent.close (by simp [Connection.close_phase]) p

theorem Synced.turn [Url.Idna] {c : Client ρ} (h : Synced c) (now : Nat) (i : Input) :
    Synced (Client.turn now i c).client := by
  obtain ⟨d, f, hc, hp⟩ := course h.fits.coherent h.idle now i
  have hf := fits_course h.fits hc
  constructor
  · rw [hp.connection, hp.player]
    exact ⟨hf.coherent, hf.connected, hf.closing, hf.negotiated⟩
  · rw [hp.player]
    rfl

/-- Before the loop runs, nothing has happened to the player and no socket was opened. -/
theorem Starts.fresh [Url.Idna] {s : Settings} {observer : Session.Observer} {c : Client ρ}
    (h : Starts s observer c) :
    c.player = playerOf s observer ∧ Coherent c.connection ∧ c.connection.phase ≠ .open ∧
      c.connection.queue = [] ∧ c.connection.opened = 0 := by
  induction h with
  | made h =>
    unfold Client.new at h
    cases hr : Endpoint.resolve s.url s.origin with
    | error fault => simp [hr, Except.map] at h
    | ok endpoint =>
      simp only [hr, Except.map, Except.ok.injEq] at h
      subst h
      exact ⟨rfl, .new _ _, by simp [Connection.new], rfl, rfl⟩
  | @connects c _ ih =>
    obtain ⟨hp, hc, hne, hq, hn⟩ := ih
    refine ⟨hp, hc.connect, ?_, ?_, ?_⟩
    · simp [connect, Connection.connect_phase]
    · simp [connect, Connection.connect_queue, hne, hq]
    · simp [connect, Connection.connect_opened, hn]

theorem Starts.synced [Url.Idna] {s : Settings} {observer : Session.Observer} {c : Client ρ}
    (h : Starts s observer c) : Synced c := by
  obtain ⟨hp, hc, hne, -, -⟩ := h.fresh
  constructor
  · rw [hp]
    exact fits_disconnected hc hne rfl rfl rfl
  · rw [hp]
    rfl

/-- The socket as the application sees it: `true` where it opens and `false` where it closes. -/
def switches (events : List Event) : List Bool :=
  events.filterMap fun e =>
    match e with
    | .connected => some true
    | .disconnected => some false
    | _ => none

/-- Every close of the socket is told right after the state that goes with it. -/
def Announced (events : List Event) : Prop :=
  ∀ before after, events = before ++ .disconnected :: after →
    ∃ front, before = front ++ [.stateChanged (some (-1)) .disconnected]

theorem Announced.append {a b : List Event} (ha : Announced a) (hb : Announced b) :
    Announced (a ++ b) := by
  intro before after hs
  rcases History.split_append hs with ⟨rest, hold, -⟩ | ⟨rest, rfl, hnew⟩
  · exact ha before rest hold
  · obtain ⟨front, rfl⟩ := hb rest after hnew
    exact ⟨a ++ front, by simp⟩

inductive Switch (p q : Player ρ) (events : List Event) : Prop
  | stays (hc : q.isConnected = p.isConnected)
    (hs : ∀ e ∈ events, e ≠ .connected ∧ e ≠ .disconnected)
  | opens (hp : p.isConnected = false) (hq : q.isConnected = true)
    (he : events = if p.observer = .live then [.connected] else [])
  | closes (hp : p.isConnected = true) (hq : q.isConnected = false)
    (he : events = if p.observer = .live then
      [.stateChanged (some (-1)) .disconnected, .disconnected] else [])

theorem silent_told {effects : List (Session.Effect ρ)}
    (h : ∀ e ∈ effects, e ≠ .event .connected ∧ e ≠ .event .disconnected) :
    ∀ e ∈ told effects, e ≠ .connected ∧ e ≠ .disconnected := by
  intro e he
  obtain ⟨x, hx, hxe⟩ := List.mem_filterMap.mp he
  cases x with
  | event e' =>
    obtain rfl : e' = e := by simpa using hxe
    obtain ⟨hc, hd⟩ := h _ hx
    exact ⟨by simpa using hc, by simpa using hd⟩
  | _ => cases hxe

theorem switch_closed (p : Player ρ) : Switch p (Player.closed p).1 (told (Player.closed p).2) := by
  rw [Player.closed_eq]
  cases hc : p.isConnected with
  | false => exact .stays (by rw [hc]; rfl) (by simp [told])
  | true =>
    refine .closes hc rfl ?_
    by_cases hl : p.observer = .live <;> simp [told, hl]

theorem switch_course {now : Nat} {c d : Connection} {p : Player ρ} {f : PlayerStep ρ}
    {e : Option Connection.Event} {target : Option Url} (h : Fits c p)
    (hc : Course now c e target d f) :
    Switch p (f p).1 (told (f p).2) ∧ (f p).1.observer = p.observer := by
  have hskip : Switch p p (told ([] : List (Session.Effect ρ))) := .stays rfl (by simp [told])
  have hclosed : (Player.closed p).1.observer = p.observer := by rw [Player.closed_eq]
  cases hc with
  | stays hf => exact ⟨.stays (hf p).isConnected (silent_told (hf p).silent), (hf p).observer⟩
  | opens hh hq =>
    rw [Player.opened_eq]
    refine ⟨.opens (h.closed_of_handshake hh hq) rfl ?_, rfl⟩
    by_cases hl : p.observer = .live <;> simp [told, hl]
  | hears s ho =>
    obtain ⟨hs, hobs, hsil⟩ := Player.receive_silent p now s
    exact ⟨.stays hs (silent_told hsil), hobs⟩
  | ends | learns | stops => exact ⟨switch_closed p, hclosed⟩
  | fails | retries | reconnects => exact ⟨hskip, rfl⟩
  | changes endpoint =>
    have hs := switch_closed p
    rw [Player.resetSession_eq]
    refine ⟨?_, hclosed⟩
    cases hs with
    | stays hc hs => exact .stays (by rw [← hc, Player.closed_eq]; rfl) hs
    | opens _ hq => rw [Player.closed_eq] at hq; cases hq
    | closes hp _ he => exact .closes hp rfl he

structure Tells (p : Player ρ) (events : List Event) : Prop where
  alternate : List.IsChain (· ≠ ·) (false :: switches events)
  last : p.observer = .live → (switches events).getLastD false = p.isConnected
  closed : p.observer ≠ .live → switches events = []
  announced : Announced events

theorem switches_append (a b : List Event) : switches (a ++ b) = switches a ++ switches b := by
  simp [switches]

theorem announced_of_silent {events : List Event}
    (h : ∀ e ∈ events, e ≠ .connected ∧ e ≠ .disconnected) : Announced events := by
  rintro before after rfl
  exact absurd rfl (h .disconnected (by simp)).2

theorem switches_of_silent {events : List Event}
    (h : ∀ e ∈ events, e ≠ .connected ∧ e ≠ .disconnected) : switches events = [] := by
  rw [switches, List.filterMap_eq_nil_iff]
  intro e he
  obtain ⟨hc, hd⟩ := h e he
  cases e with
  | connected => exact absurd rfl hc
  | disconnected => exact absurd rfl hd
  | _ => rfl

theorem chain_concat {l : List Bool} {b : Bool} (h : List.IsChain (· ≠ ·) (false :: l))
    (hb : l.getLastD false ≠ b) : List.IsChain (· ≠ ·) (false :: (l ++ [b])) := by
  rw [← List.cons_append, List.isChain_append]
  refine ⟨h, List.isChain_singleton b, ?_⟩
  intro x hx y hy
  obtain rfl : b = y := by simpa using hy
  have hl : l.getLastD false = x := by simpa [List.getLast?_cons] using hx
  rwa [hl] at hb

theorem Tells.turnOver {p q : Player ρ} {events more : List Event} (h : Tells p events)
    (ho : q.observer = p.observer) (hpq : p.isConnected ≠ q.isConnected)
    (hm : switches more = if p.observer = .live then [q.isConnected] else [])
    (ha : Announced more) : Tells q (events ++ more) := by
  by_cases hl : p.observer = .live
  · rw [if_pos hl] at hm
    refine ⟨?_, ?_, ?_, h.announced.append ha⟩
    · rw [switches_append, hm]
      exact chain_concat h.alternate (by rwa [h.last hl])
    · simp [switches_append, hm]
    · simp [ho, hl]
  · rw [if_neg hl] at hm
    refine ⟨?_, ?_, ?_, h.announced.append ha⟩
    · simpa [switches_append, hm] using h.alternate
    · simp [ho, hl]
    · simpa [switches_append, hm, ho] using h.closed

theorem Tells.switch {p q : Player ρ} {events more : List Event} (h : Tells p events)
    (hs : Switch p q more) (ho : q.observer = p.observer) : Tells q (events ++ more) := by
  cases hs with
  | stays hc hs =>
    have hm := switches_of_silent hs
    refine ⟨?_, ?_, ?_, h.announced.append (announced_of_silent hs)⟩
    · simpa [switches_append, hm] using h.alternate
    · simpa [switches_append, hm, ho, hc] using h.last
    · simpa [switches_append, hm, ho] using h.closed
  | opens hp hq he =>
    refine h.turnOver ho (by simp [hp, hq]) ?_ ?_
    · rw [he, hq]
      split <;> rfl
    · rw [he]
      split <;> simp [Announced, List.cons_eq_append_iff]
  | closes hp hq he =>
    refine h.turnOver ho (by simp [hp, hq]) ?_ ?_
    · rw [he, hq]
      split <;> rfl
    · rw [he]
      split <;> simp [Announced, List.cons_eq_append_iff]

structure Run.Kept [Url.Idna] (observer : Session.Observer) (r : Run ρ) : Prop where
  synced : Synced r.client
  tells : Tells r.client.player r.events
  observer : r.client.player.observer = observer

theorem Starts.kept [Url.Idna] {s : Settings} {observer : Session.Observer} {c : Client ρ}
    (h : Starts s observer c) : Run.Kept observer ⟨c, [], true⟩ := by
  obtain ⟨hp, -⟩ := h.fresh
  have ho : c.player.observer = observer := by
    rw [hp]
    rfl
  refine ⟨h.synced, ⟨List.isChain_singleton false, ?_, fun _ => rfl, ?_⟩, ho⟩
  · intro _
    simp only [hp]
    rfl
  · simp [Announced, Run.events]

theorem Run.Kept.step [Url.Idna] {observer : Session.Observer} {r : Run ρ} (h : r.Kept observer)
    (now : Nat) (i : Input) : (r.step now i).Kept observer := by
  unfold Run.step
  split
  · obtain ⟨d, f, hc, hp⟩ := course h.synced.fits.coherent h.synced.idle now i
    obtain ⟨hs, ho⟩ := switch_course h.synced.fits hc
    have he : Run.events ⟨(Client.turn now i r.client).client, r.taken ++ [⟨now, i, r.client⟩],
        (Client.turn now i r.client).goesOn⟩ = r.events ++ told (f r.client.player).2 := by
      simp [Run.events, Taken.turn, hp.events]
    have ht := h.tells.switch hs ho
    refine ⟨h.synced.turn now i, ?_, ?_⟩
    · simp only [Taken.turn] at he ⊢
      rw [he, hp.player]
      exact ⟨ht.alternate, ht.last, ht.closed, ht.announced⟩
    · simp only [Taken.turn]
      rw [hp.player]
      exact ho.trans h.observer
  · exact h

theorem run_kept [Url.Idna] {s : Settings} {observer : Session.Observer} {c : Client ρ}
    (h : Starts s observer c) (inputs : List (Nat × Input)) : (run c inputs).Kept observer := by
  induction inputs using List.reverseRecOn with
  | nil => exact h.kept
  | append_singleton inputs i ih =>
    rw [run_concat]
    exact ih.step i.1 i.2

theorem run_goesOn [Url.Idna] (c : Client ρ) (inputs : List (Nat × Input)) :
    (run c inputs).goesOn = !inputs.any (·.2.ends) := by
  induction inputs using List.reverseRecOn with
  | nil => rfl
  | append_singleton inputs i ih =>
    rw [run_concat, Run.step]
    cases hg : (run c inputs).goesOn with
    | false =>
      rw [hg] at ih
      simp [hg, ← ih]
    | true =>
      rw [hg] at ih
      have hn : inputs.any (·.2.ends) = false := by simpa using ih.symm
      simp [Taken.turn, turn_goesOn, hn]

structure Ended (p : Player ρ) : Prop where
  closed : p.isConnected = false
  pending : p.rpc.pending = []
  outbox : p.rpc.outbox = []
  timer : p.timer = none
  capabilities : p.capabilities = .empty

theorem ended_closed (p : Player ρ) : Ended (Player.closed p).1 := by
  rw [Player.closed_eq]
  exact ⟨rfl, rfl, rfl, rfl, rfl⟩

theorem run_ended [Url.Idna] (c : Client ρ) (inputs : List (Nat × Input))
    (he : (run c inputs).goesOn = false) : Ended (run c inputs).client.player := by
  induction inputs using List.reverseRecOn with
  | nil => cases he
  | append_singleton inputs i ih =>
    rw [run_concat, Run.step] at he ⊢
    split at he
    · rename_i hg
      simp only [hg, if_true]
      have hi : i.2.ends = true := by simpa [Taken.turn, turn_goesOn] using he
      simp only [Taken.turn, turn_ends hi]
      exact ended_closed (run c inputs).client.player
    · -- the loop had ended before
      rename_i hg
      simp only [hg]
      exact ih he

/-- At the start of every turn socket and player agree, up to a close that is still to be told; a
timer or a capability is there only while the player is connected. So the application sees the
socket open and close in turn, each close right after the state that goes with it, and when the loop
ends nothing of the session is left. -/
theorem socket_and_player_agree [Url.Idna] {s : Settings} {observer : Session.Observer}
    {c : Client ρ} (h : Starts s observer c) (inputs : List (Nat × Input)) :
    let r := run c inputs
    (r.client.connection.phase = .open → r.client.player.isConnected = true) ∧
    (r.client.player.isConnected = true → r.client.connection.phase ≠ .open →
      .close ∈ r.client.connection.queue) ∧
    (r.client.player.isPolling = true ∨ r.client.player.capabilities.isEmpty = false →
      r.client.player.isConnected = true) ∧
    List.IsChain (· ≠ ·) (false :: switches r.events) ∧
    (observer = .live → (switches r.events).getLastD false = r.client.player.isConnected) ∧
    (∀ before after, r.events = before ++ .disconnected :: after →
      ∃ front, before = front ++ [.stateChanged (some (-1)) .disconnected]) ∧
    r.goesOn = !inputs.any (·.2.ends) ∧
    (r.goesOn = false → r.client.player.isConnected = false ∧ r.client.player.rpc.pending = [] ∧
      r.client.player.rpc.outbox = [] ∧ r.client.player.timer = none ∧
      r.client.player.capabilities = .empty) := by
  intro r
  have hk : r.Kept observer := run_kept h inputs
  have hf := hk.synced.fits
  refine ⟨hf.connected, hf.closing, hf.negotiated, hk.tells.alternate, ?_, hk.tells.announced,
    run_goesOn c inputs, ?_⟩
  · intro hl
    exact hk.tells.last (hk.observer.trans hl)
  · intro hg
    have hend := run_ended c inputs hg
    exact ⟨hend.closed, hend.pending, hend.outbox, hend.timer, hend.capabilities⟩

attribute [local instance] Url.Idna.ascii in
/-- A client that reconnects while its socket is open has a close to tell. -/
theorem close_queued_by_reconnect :
    ∃ c : Client Nat, Starts (.withUrl "ws://h/p") .live c ∧
      .close ∈ (run c
        [(0, .arrival .handshakeDone), (1, .command .reconnect)]).client.connection.queue := by
  obtain ⟨endpoint, hc⟩ := plain_address_starts
  refine ⟨_, hc, ?_⟩
  obtain ⟨-, hclose, -⟩ := socket_and_player_agree hc
    [(0, .arrival .handshakeDone), (1, .command .reconnect)]
  refine hclose rfl ?_
  intro (ho : Phase.connecting = .open)
  cases ho

end MediaRemote.Client
