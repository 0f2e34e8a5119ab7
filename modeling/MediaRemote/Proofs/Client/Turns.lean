import MediaRemote.Client.Loop
import MediaRemote.Proofs.Connection.Coherence
import MediaRemote.Proofs.Session.Sending

namespace MediaRemote.Client

open Connection (Coherent)
open Session (Player PlayerStep)
open Step ClientStep

variable {ρ : Type}

def Effect.event? : Effect ρ → Option Session.Event
  | .player (.event e) => some e
  | _ => none

def Effect.written? : Effect ρ → Option (Nat × String)
  | .write socket frame => some (socket, frame)
  | _ => none

def carried (socket : Option Nat) (frames : List String) : List (Nat × String) :=
  match socket with
  | some k => frames.map (k, ·)
  | none => []

@[simp]
theorem carried_none (frames : List String) : carried none frames = [] := rfl

@[simp]
theorem carried_nil (socket : Option Nat) : carried socket [] = [] := by
  cases socket <;> rfl

def told (effects : List (Session.Effect ρ)) : List Session.Event :=
  effects.filterMap fun e =>
    match e with
    | .event e => some e
    | _ => none

def delivered (now : Nat) (i : Input) (c : Connection) : Option Connection.Event :=
  match i with
  | .delivery => c.deliver?.map (·.1)
  | .arrival a => (c.arrive now a).event
  | _ => none

def Input.target? [Url.Idna] (origin : Option Url) : Input → Option Url
  | .command (.changePlayer url) => (Endpoint.resolve url origin).toOption
  | _ => none

def Input.ends : Input → Bool
  | .command .quit | .commandsEnded => true
  | _ => false

/-- What the connection and the player do in a turn, by what is delivered and whom to follow. -/
inductive Course (now : Nat) (c : Connection) :
    Option Connection.Event → Option Url → Connection → PlayerStep ρ → Prop
  | stays {f} (hf : Keeps Player.Stays f) : Course now c none none c f
  | opens {target} (hh : c.handshake = some target) (hq : c.queue = []) :
    Course now c (some .open) none
      { c with
        handshake := none
        sender := some c.opened
        receiver := some c.opened
        opened := c.opened + 1
        phase := .open } Player.opened
  | hears (s : String) (ho : c.phase = .open) :
    Course now c (some (.text s)) none c (Player.receive now s)
  | ends (ho : c.phase = .open) : Course now c (some .close) none (c.lose now).1 Player.closed
  | fails (fault notice) (hq : c.queue = []) :
    Course now c (some (.error fault)) none (c.fail now fault notice).connection skip
  | retries {due} (ht : c.timer = some due) :
    Course now c none none
      { c with timer := none, handshake := some c.endpoint, phase := .connecting } skip
  | learns (ho : c.phase ≠ .open) :
    Course now c (some .close) none { c with queue := [] } Player.closed
  | reconnects : Course now c none none c.connect.1 skip
  | changes (endpoint : Url) :
    Course now c none (some endpoint) (c.close.1.setEndpoint endpoint).connect.1
      Player.resetSession
  | stops : Course now c none none c.close.1 Player.closed

/-- The turn takes the connection to `d` and the player along `f`, and sends what is queued. -/
structure Plays (c : Client ρ) (d : Connection) (f : PlayerStep ρ) (t : Turn ρ) : Prop where
  connection : t.client.connection = d
  player : t.client.player = (f c.player).1.drain.2
  events : t.effects.filterMap Effect.event? = told (f c.player).2
  written : t.effects.filterMap Effect.written? =
    carried d.socket? (f c.player).1.rpc.outbox

theorem event?_player (effects : List (Session.Effect ρ)) :
    (effects.map Effect.player).filterMap Effect.event? = told effects := by
  rw [List.filterMap_map, told]
  congr 1
  funext e
  cases e <;> rfl

theorem written?_player (effects : List (Session.Effect ρ)) :
    (effects.map Effect.player).filterMap Effect.written? = [] := by
  simp [List.filterMap_eq_nil_iff, Effect.written?]

theorem event?_sendFrame (d : Connection) (frames : List String) :
    (frames.map (sendFrame (ρ := ρ) d)).filterMap Effect.event? = [] := by
  rw [List.filterMap_eq_nil_iff]
  intro e he
  obtain ⟨frame, -, rfl⟩ := List.mem_map.mp he
  unfold sendFrame
  split <;> rfl

theorem written?_sendFrame (d : Connection) (frames : List String) :
    (frames.map (sendFrame (ρ := ρ) d)).filterMap Effect.written? = carried d.socket? frames := by
  cases hs : d.socket? with
  | none => simp [List.filterMap_eq_nil_iff, sendFrame, Connection.send, hs, Effect.written?]
  | some k =>
    induction frames with
    | nil => rfl
    | cons frame frames ih =>
      simp_all [carried, sendFrame, Connection.send, Effect.written?]

/-- What is noted or told of the connection is neither an event nor a frame. -/
def Silent (effects : List (Effect ρ)) : Prop :=
  effects.filterMap Effect.event? = [] ∧ effects.filterMap Effect.written? = []

theorem silent_nil : Silent ([] : List (Effect ρ)) := ⟨rfl, rfl⟩

theorem silent_connection (notices : List Connection.Notice) :
    Silent (notices.map (Effect.connection (ρ := ρ))) := by
  simp [Silent, List.filterMap_eq_nil_iff, Effect.event?, Effect.written?]

theorem silent_writeClose (socket : Option Nat) :
    Silent (socket.map (Effect.writeClose (ρ := ρ))).toList := by
  cases socket <;> simp [Silent, Effect.event?, Effect.written?]

theorem Silent.append {a b : List (Effect ρ)} (ha : Silent a) (hb : Silent b) :
    Silent (a ++ b) := by
  simp [Silent, List.filterMap_append, ha.1, ha.2, hb.1, hb.2]

/-- A step of the player and then sending what it queued, after effects that show nothing. -/
theorem plays_flush {c : Client ρ} {d : Connection} {f : PlayerStep ρ} {t : Turn ρ}
    {front : List (Effect ρ)} (hf : Silent front)
    (hc : t.client = (inOrder [ofPlayer f, flush] { c with connection := d }).1)
    (he : t.effects = front ++ (inOrder [ofPlayer f, flush] { c with connection := d }).2) :
    Plays c d f t where
  connection := by rw [hc]; rfl
  player := by rw [hc]; rfl
  events := by
    simp only [he, inOrder, Step.andThen, ofPlayer, flush, Step.skip, List.append_nil,
      List.filterMap_append, hf.1, event?_player, event?_sendFrame, List.nil_append]
  written := by
    simp only [he, inOrder, Step.andThen, ofPlayer, flush, Step.skip, List.append_nil,
      List.filterMap_append, hf.2, written?_player, written?_sendFrame, List.nil_append]
    rfl

/-- A step of the player that leaves nothing to send, among effects that show nothing. -/
theorem plays_between {c : Client ρ} {d : Connection} {f : PlayerStep ρ} {t : Turn ρ}
    {front back : List (Effect ρ)} (hf : Silent front) (hb : Silent back)
    (ho : (f c.player).1.rpc.outbox = []) (hc : t.client.connection = d)
    (hp : t.client.player = (f c.player).1)
    (he : t.effects = front ++ ((f c.player).2.map .player ++ back)) : Plays c d f t where
  connection := hc
  player := by simp only [hp, Player.drain, Session.Rpc.drain, ← ho]
  events := by
    simp only [he, List.filterMap_append, hf.1, hb.1, event?_player, List.nil_append,
      List.append_nil]
  written := by
    simp only [he, List.filterMap_append, hf.2, hb.2, written?_player, List.nil_append, ho,
      carried_nil]

/-- With nothing in the outbox, a turn that leaves the player alone sends nothing. -/
theorem plays_skip {c : Client ρ} {d : Connection} {t : Turn ρ} (ho : c.player.rpc.outbox = [])
    (hc : t.client = { c with connection := d }) (he : Silent t.effects) : Plays c d skip t :=
  plays_between he silent_nil ho (by rw [hc]) (by rw [hc]; rfl) (by simp [Step.skip])

theorem course_delivery [Url.Idna] {c : Client ρ} (h : Coherent c.connection)
    (ho : c.player.rpc.outbox = []) (now : Nat) :
    ∃ d f, Course now c.connection (delivered now .delivery c.connection) none d f ∧
      Plays c d f (turn now .delivery c) := by
  simp only [delivered, turn, deliver]
  cases hd : c.connection.deliver? with
  | none => exact ⟨_, _, .stays .skip, plays_skip ho rfl (by simp [Silent, Step.skip, Turn.of])⟩
  | some out =>
    obtain ⟨e, d⟩ := out
    obtain ⟨rfl, hne, rfl⟩ := h.deliver hd
    exact ⟨_, _, .learns hne, plays_flush silent_nil rfl rfl⟩

theorem course_arrival [Url.Idna] {c : Client ρ} (h : Coherent c.connection)
    (ho : c.player.rpc.outbox = []) (now : Nat) (a : Connection.Arrival) :
    ∃ d f, Course now c.connection (delivered now (.arrival a) c.connection) none d f ∧
      Plays c d f (turn now (.arrival a) c) := by
  have harr := h.arrives now a
  simp only [delivered, turn, Client.arrive]
  generalize c.connection.arrive now a = arrived at harr ⊢
  cases harr with
  | nothing => exact ⟨_, _, .stays .skip, plays_skip ho rfl silent_nil⟩
  | opens hh hq => exact ⟨_, _, .opens hh hq, plays_flush (silent_connection _) rfl rfl⟩
  | text s hopen => exact ⟨_, _, .hears s hopen, plays_flush (silent_connection _) rfl rfl⟩
  | ended hopen => exact ⟨_, _, .ends hopen, plays_flush (silent_connection _) rfl rfl⟩
  | refused fault hh hq =>
    exact ⟨_, _, .fails fault _ hq, plays_flush (silent_connection _) rfl rfl⟩
  | broken fault hopen =>
    exact ⟨_, _, .fails fault _ (h.queue_of_open hopen),
      plays_flush (silent_connection _) rfl rfl⟩
  | retry ht =>
    refine ⟨_, _, .retries ht, plays_skip ho rfl ?_⟩
    exact (silent_connection _).append silent_nil

theorem course_tick [Url.Idna] {c : Client ρ} (ho : c.player.rpc.outbox = []) (now : Nat) :
    ∃ d f, Course now c.connection (delivered now .tick c.connection) none d f ∧
      Plays c d f (turn now .tick c) := by
  simp only [delivered, turn, Client.tick]
  split
  · refine ⟨_, _, .stays (Player.stays_tick now), plays_flush silent_nil rfl ?_⟩
    simp [Turn.of, inOrder, Step.andThen, ofPlayer, Step.skip, Player.tick, Step.modify]
  · exact ⟨_, _, .stays .skip, plays_skip ho rfl silent_nil⟩

theorem flush_idle {c : Client ρ} (ho : c.player.rpc.outbox = []) : flush c = (c, []) := by
  simp only [flush, Player.drain, Session.Rpc.drain, ho, List.map_nil]
  simp only [← ho]

/-- All commands but three go to the player. -/
theorem obey_cases [Url.Idna] (command : Command) :
    command = .quit ∨ command = .reconnect ∨ (∃ url, command = .changePlayer url) ∨
      ((∀ origin, Input.target? origin (.command command) = none) ∧ ∀ c : Client ρ,
        obey command c = .of true (inOrder [ofPlayer (Player.execute command), flush] c)) := by
  cases command <;> simp [obey, Input.target?]

/-- Closing on purpose forgets the outbox, so nothing is left to send. -/
theorem plays_stop (c : Client ρ) (goesOn : Bool) :
    Plays c c.connection.close.1 Player.closed (.of goesOn (stop c)) := by
  have ho : (Player.closed c.player).1.rpc.outbox = [] := by
    rw [Player.closed_eq]
    rfl
  refine plays_between (silent_writeClose c.connection.close.2) silent_nil ho rfl rfl ?_
  simp [Turn.of, stop, closeConnection, inOrder, Step.andThen, ofPlayer, Step.skip]

theorem plays_reconnect {c : Client ρ} (ho : c.player.rpc.outbox = []) :
    Plays c c.connection.connect.1 skip (.of true (inOrder [reconnect, flush] c)) := by
  have he : inOrder [reconnect, flush] c = ({ c with connection := c.connection.connect.1 },
      .note .reconnecting :: c.connection.connect.2.map .connection) := by
    have hf := flush_idle (c := { c with connection := c.connection.connect.1 }) ho
    simp [reconnect, connect, note, inOrder, Step.andThen, Step.give, Step.skip, hf]
  rw [he]
  refine plays_skip ho rfl ?_
  have hs := silent_connection (ρ := ρ) c.connection.connect.2
  exact ⟨hs.1, hs.2⟩

/-- Another player is followed in a session of its own: what the old one was to be sent is lost. -/
theorem plays_changePlayer [Url.Idna] {c : Client ρ} {url : String} {endpoint : Url}
    (hr : Endpoint.resolve url c.origin = .ok endpoint) :
    Plays c (c.connection.close.1.setEndpoint endpoint).connect.1 Player.resetSession
      (.of true (inOrder [changePlayer url, flush] c)) := by
  have ho : (Player.resetSession c.player).1.rpc.outbox = [] := by
    rw [Player.resetSession_eq]
    rfl
  have hf := flush_idle (c := ⟨(c.connection.close.1.setEndpoint endpoint).connect.1,
    (Player.resetSession c.player).1, c.origin⟩) ho
  have he : changePlayer url c = (⟨(c.connection.close.1.setEndpoint endpoint).connect.1,
      (Player.resetSession c.player).1, c.origin⟩,
      (.note (.changingPlayer endpoint) :: (c.connection.close.2.map .writeClose).toList) ++
        ((Player.resetSession c.player).2.map .player ++
          (c.connection.close.1.setEndpoint endpoint).connect.2.map .connection)) := by
    simp [changePlayer, hr, note, closeConnection, connect, inOrder, Step.andThen, ofPlayer,
      Step.give, Step.modify, Step.skip]
  have hs := silent_writeClose (ρ := ρ) c.connection.close.2
  have hn := silent_connection (ρ := ρ) (c.connection.close.1.setEndpoint endpoint).connect.2
  refine plays_between (show Silent (.note (.changingPlayer endpoint) :: _) from ⟨hs.1, hs.2⟩) hn ho
    ?_ ?_ ?_
  all_goals simp only [Turn.of, inOrder, Step.andThen, he, hf, Step.skip, List.append_nil]

theorem plays_changeFails [Url.Idna] {c : Client ρ} {url : String} {fault : EndpointFault}
    (ho : c.player.rpc.outbox = []) (hr : Endpoint.resolve url c.origin = .error fault) :
    Plays c c.connection skip (.of true (inOrder [changePlayer url, flush] c)) := by
  have he : inOrder [changePlayer url, flush] c = (c, [.note (.cannotChangePlayer fault)]) := by
    simp [changePlayer, hr, note, inOrder, Step.andThen, Step.give, Step.skip, flush_idle ho]
  rw [he]
  exact plays_skip ho rfl ⟨rfl, rfl⟩

theorem course_command [Url.Idna] {c : Client ρ} (ho : c.player.rpc.outbox = []) (now : Nat)
    (command : Command) :
    ∃ d f, Course now c.connection none (Input.target? c.origin (.command command)) d f ∧
      Plays c d f (turn now (.command command) c) := by
  rcases obey_cases (ρ := ρ) command with rfl | rfl | ⟨url, rfl⟩ | ⟨ht, hobey⟩
  · exact ⟨_, _, .stops, plays_stop c false⟩
  · exact ⟨_, _, .reconnects, plays_reconnect ho⟩
  · simp only [turn, obey, Input.target?]
    cases hr : Endpoint.resolve url c.origin with
    | error fault => exact ⟨_, _, .stays .skip, plays_changeFails ho hr⟩
    | ok endpoint => exact ⟨_, _, .changes endpoint, plays_changePlayer hr⟩
  · rw [ht]
    simp only [turn, hobey]
    refine ⟨_, _, .stays ?_, plays_flush silent_nil rfl rfl⟩
    exact Player.stays_of_asks (Player.asks_execute command)

/-- Every turn takes one of the courses. -/
theorem course [Url.Idna] {c : Client ρ} (h : Coherent c.connection) (ho : c.player.rpc.outbox = [])
    (now : Nat) (i : Input) :
    ∃ d f, Course now c.connection (delivered now i c.connection) (i.target? c.origin) d f ∧
      Plays c d f (turn now i c) := by
  cases i with
  | delivery => exact course_delivery h ho now
  | arrival a => exact course_arrival h ho now a
  | tick => exact course_tick ho now
  | command command => exact course_command ho now command
  | commandsEnded => exact ⟨_, _, .stops, plays_stop c false⟩

end MediaRemote.Client
