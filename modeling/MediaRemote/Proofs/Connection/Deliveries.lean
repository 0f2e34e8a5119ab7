import MediaRemote.Proofs.Connection.Steps
import MediaRemote.Proofs.Histories

namespace MediaRemote.Connection

open History (Since)

abbrev Moment := History.Moment Connection Act

namespace Moment

variable (m : Moment)

def after : Connection := (m.before.act m.now m.input).connection

def event : Option Event := (m.before.act m.now m.input).event

def Loses : Prop := Connection.Loses m.before m.input

def Tries : Prop := Connection.Tries m.now m.before m.input

def Fails : Prop := ∃ fault, m.event = some (.error fault)

/-- Neither another loss nor an attempt, and it is not told what to do. -/
def Waits : Prop := ¬ m.Loses ∧ ¬ m.Tries ∧ ¬ m.input.Steers

/-- What comes of that which is waited for, and that a loss or an attempt comes of nothing else. -/
structure Answers (delay : Nat) : Prop where
  opened : m.input = .arrive .handshakeDone → m.before.handshake.isSome → m.before.queue = [] →
    m.event = some .open
  heard : ∀ s, m.input = .arrive (.text s) → m.before.receiver.isSome → m.event = some (.text s)
  failed : ∀ x fault, m.input = .arrive x → x.fault? = some fault → m.Loses →
    m.event = some (.error fault) ∧ m.after.queue = [.close]
  ended : m.input = .arrive .ended → m.Loses → m.event = some .close ∧ m.after.queue = []
  scheduled : m.Loses → m.after.timer = some (m.now + delay)
  attempted : m.Tries → m.after.handshake = some m.before.endpoint
  loses_iff : m.Loses ↔ (∃ x, m.input = .arrive x) ∧ m.before.Engaged ∧ ¬ m.after.Engaged
  tries_iff : m.Tries ↔
    (∃ x, m.input = .arrive x) ∧ m.before.handshake = none ∧ m.after.handshake.isSome

end Moment

def history (c : Connection) (acts : List (Nat × Act)) : List Moment :=
  History.moments (fun now a c => (c.act now a).connection) c acts

theorem history_concat (c : Connection) (acts : List (Nat × Act)) (now : Nat) (a : Act) :
    c.history (acts ++ [(now, a)]) = c.history acts ++ [⟨c.after acts, now, a⟩] :=
  History.moments_concat ..

/-- What is held is what has happened and was not undone since. -/
structure Recorded (delay : Nat) (h : List Moment) (c : Connection) : Prop where
  coherent : Coherent c
  pace : c.delay = delay
  opened : c.phase = .open →
    Since (·.event = some .open) (fun m => m.event ≠ some .close ∧ ¬ m.input.Steers) h
  owed : Since (·.event = some .open) (fun m => m.event ≠ some .close ∧ m.input ≠ .close) h →
    c.phase = .open ∨ c.queue = [.close]
  failed : Since Moment.Fails (fun m => m.event = none ∧ m.input ≠ .close) h → c.queue = [.close]
  alive : Since (·.input = .connect) (·.input ≠ .close) h → c.Alive
  timer : ∀ due, c.timer = some due ↔ Since (fun m => m.Loses ∧ m.now + delay = due) Moment.Waits h
  quiet : Since (·.input = .close) (·.input ≠ .connect) h → c.Quiet

theorem recorded_new (endpoint : Url) (delay : Nat) : Recorded delay [] (new endpoint delay) where
  coherent := .new endpoint delay
  pace := rfl
  opened ho := by cases ho
  owed h := absurd h History.not_since_nil
  failed h := absurd h History.not_since_nil
  alive h := absurd h History.not_since_nil
  timer due := ⟨nofun, fun h => absurd h History.not_since_nil⟩
  quiet h := absurd h History.not_since_nil

theorem Recorded.step {delay : Nat} {h : List Moment} {c : Connection} (hr : Recorded delay h c)
    (now : Nat) (a : Act) :
    Recorded delay (h ++ [⟨c, now, a⟩]) (c.act now a).connection := by
  have hc := hr.coherent
  have hp := hc.passes now a
  constructor
  case coherent => exact hc.act now a
  case pace => rw [hp.delay, hr.pace]
  case opened =>
    intro ho
    rw [History.since_concat]
    rcases hp.to_open ho with he | ⟨hopen, he, hs⟩
    · exact .inl he
    · exact .inr ⟨hr.opened hopen, he, hs⟩
  case owed =>
    rw [History.since_concat]
    rintro (he | ⟨hold, he, ha⟩)
    · change (c.act now a).event = some .open at he
      rw [he] at hp
      exact .inl (hp.open_event hc).2.2
    · exact hp.owed hc he ha (hr.owed hold)
  case failed =>
    rw [History.since_concat]
    rintro (⟨fault, he⟩ | ⟨hold, he, ha⟩)
    · change (c.act now a).event = _ at he
      rw [he] at hp
      exact hp.error_event
    · change (c.act now a).event = _ at he
      rw [he] at hp
      exact hp.stays_queued hc ha (hr.failed hold)
  case alive =>
    rw [History.since_concat]
    rintro (rfl | ⟨hold, ha⟩)
    · exact hp.connected hc
    · exact hp.alive hc ha (hr.alive hold)
  case timer =>
    intro due
    rw [History.since_concat, ← hr.timer, hp.timer hc, hr.pace]
    rfl
  case quiet =>
    rw [History.since_concat]
    rintro (rfl | ⟨hold, ha⟩)
    · exact hp.closed
    · exact (hp.quiet hc ha (hr.quiet hold)).2

theorem recorded_after (endpoint : Url) (delay : Nat) (acts : List (Nat × Act)) :
    Recorded delay ((new endpoint delay).history acts) ((new endpoint delay).after acts) := by
  induction acts using List.reverseRecOn with
  | nil => exact recorded_new endpoint delay
  | append_singleton acts a ih =>
    rw [history_concat, after_concat]
    exact ih.step a.1 a.2

/-- The timer, if it is due by then: it goes off when it is due, or at once if it was due before. -/
def ring (now upTo : Nat) (c : Connection) : List (Nat × Act) :=
  match c.timer with
  | some due => if max now due ≤ upTo then [(max now due, .arrive .timeUp)] else []
  | none => []

/-- What awaiting comes to from `now` until something is delivered or it is given up at `deadline`,
while these things arrive, each at its time. What arrived before is taken in at once. -/
def awaited (deadline : Nat) : Nat → List (Nat × Arrival) → Connection → List (Nat × Act)
  | now, [], c => c.ring now deadline
  | now, (t, a) :: rest, c =>
    let time := max now t
    if deadline < time then c.ring now deadline
    else
      let first := c.ring now time
      let arrived := (c.after first).arrive time a
      first ++ (time, .arrive a) ::
        if arrived.event.isSome then [] else awaited deadline time rest arrived.connection

/-- While a timer is all that is held, nothing but its time can come. -/
theorem arrive_before {c : Connection} (h : Coherent c) {due now : Nat} (ht : c.timer = some due)
    (hn : now < due) (a : Arrival) : c.arrive now a = ⟨c, none, []⟩ := by
  have he : c.expects now a = false := by
    cases h with
    | timer => cases a <;> simp_all [expects]
    | _ => cases ht
  simp [arrive, he]

theorem ring_due {c : Connection} {due now upTo : Nat} (ht : c.timer = some due)
    (hu : max now due ≤ upTo) : c.ring now upTo = [(max now due, .arrive .timeUp)] := by
  simp only [ring, ht, if_pos hu]

/-- A connection that is awaited tries again when the timer is due; if it is awaited later only, it
tries again at once. -/
theorem awaited_tries {c : Connection} (h : Coherent c) {due : Nat} (ht : c.timer = some due)
    (hq : c.queue = []) {deadline : Nat} (offers : List (Nat × Arrival)) :
    ∀ now, max now due ≤ deadline →
      ∃ idle rest, c.awaited deadline now offers = idle ++ (max now due, .arrive .timeUp) :: rest ∧
        c.after idle = c ∧ (∀ m ∈ c.history idle, m.event = none) ∧
        Moment.Tries ⟨c, max now due, .arrive .timeUp⟩ := by
  have htries (now : Nat) : Moment.Tries ⟨c, max now due, .arrive .timeUp⟩ :=
    .due ht (Nat.le_max_right ..) hq
  induction offers with
  | nil =>
    intro now hd
    exact ⟨[], [], ring_due ht hd, rfl, by simp [history, History.moments], htries now⟩
  | cons offer rest ih =>
    obtain ⟨t, a⟩ := offer
    intro now hd
    simp only [awaited]
    split
    · exact ⟨[], [], ring_due ht hd, rfl, by simp [history, History.moments], htries now⟩
    · rename_i hlate
      by_cases hu : max now due ≤ max now t
      · rw [ring_due ht hu]
        exact ⟨[], _, rfl, rfl, by simp [history, History.moments], htries now⟩
      · -- what arrives before the time has come changes nothing
        have hr : c.ring now (max now t) = [] := by simp only [ring, ht, if_neg hu]
        have ha : c.arrive (max now t) a = ⟨c, none, []⟩ := arrive_before h ht (by omega) a
        have hmax : max (max now t) due = max now due := by omega
        obtain ⟨idle, after, he, hi, hm, -⟩ := ih (max now t) (by omega)
        refine ⟨(max now t, .arrive a) :: idle, after, ?_, ?_, ?_, htries now⟩
        · simp [hr, Connection.after, ha, he, hmax]
        · simpa [Connection.after, act, ha] using hi
        · intro m hmem
          simp only [history, History.moments, act, ha, List.mem_cons] at hmem
          rcases hmem with rfl | hmem
          · simp [Moment.event, act, ha]
          · exact hm m hmem

section Next

variable {delay now : Nat} {h : List Moment} {c : Connection} {a : Act} {e : Option Event}

theorem Recorded.passes (hr : Recorded delay h c) (he : Moment.event ⟨c, now, a⟩ = e) :
    Passes now c a e (c.act now a).connection :=
  he ▸ hr.coherent.passes now a

theorem Recorded.open_event (hr : Recorded delay h c)
    (he : Moment.event ⟨c, now, a⟩ = some .open) :
    ¬ Since (·.event = some .open) (fun m => m.event ≠ some .close ∧ m.input ≠ .close) h := by
  intro hs
  obtain ⟨hne, hq, -⟩ := (hr.passes he).open_event hr.coherent
  rcases hr.owed hs with ho | hclose
  · exact hne ho
  · rw [hq] at hclose
    cases hclose

theorem Recorded.text_event (hr : Recorded delay h c) {s : String}
    (he : Moment.event ⟨c, now, a⟩ = some (.text s)) :
    Since (·.event = some .open) (fun m => m.event ≠ some .close ∧ ¬ m.input.Steers) h :=
  hr.opened (hr.passes he).text_event

/-- After an error comes its close. -/
theorem Recorded.after_error (hr : Recorded delay h c)
    (hs : Since Moment.Fails (fun m => m.event = none ∧ m.input ≠ .close) h) {x : Event}
    (he : Moment.event ⟨c, now, a⟩ = some x) : x = .close :=
  (hr.passes he).queued hr.coherent (hr.failed hs)

/-- A connection that was told to connect is never stranded. -/
theorem Recorded.held (hr : Recorded delay h c)
    (hs : Since (·.input = .connect) (·.input ≠ .close) h) :
    c.handshake.isSome ∨ (c.sender.isSome ∧ c.receiver.isSome) ∨ c.timer.isSome := by
  have ha := hr.alive hs
  cases hr.coherent with
  | nothing => simp [Alive, Engaged] at ha
  | _ => simp

/-- An attempt answers a loss. -/
theorem Recorded.tries (hr : Recorded delay h c) (ht : Moment.Tries ⟨c, now, a⟩) :
    Since (fun m => m.Loses ∧ m.now + delay ≤ now) Moment.Waits h := by
  cases ht with
  | @due due hdue hle _ =>
    refine ((hr.timer due).mp hdue).imp ?_ (fun _ => id)
    rintro m ⟨hl, rfl⟩
    exact ⟨hl, hle⟩

/-- A loss that waits for its attempt has set the timer, so there is nothing more to lose. -/
theorem Recorded.loses (hr : Recorded delay h c) (hl : Moment.Loses ⟨c, now, a⟩) :
    ¬ Since Moment.Loses (fun m => ¬ m.Tries ∧ ¬ m.input.Steers) h := by
  intro hs
  obtain ⟨before, m, after, he, hm, hw⟩ := hs.last
  have ht : c.timer = some (m.now + delay) := by
    refine (hr.timer _).mpr ⟨before, m, after, he, ⟨hm, rfl⟩, ?_⟩
    intro y hy
    obtain ⟨⟨hty, hsy⟩, hly⟩ := hw y hy
    exact ⟨hly, hty, hsy⟩
  exact hr.coherent.not_engaged_of_timer ht (hr.coherent.engaged_of_loses hl)

/-- Nothing comes of a connection that was closed. -/
theorem Recorded.silent (hr : Recorded delay h c)
    (hs : Since (·.input = .close) (·.input ≠ .connect) h) :
    Moment.event ⟨c, now, a⟩ = none ∧ ¬ Moment.Tries ⟨c, now, a⟩ := by
  have hquiet := hr.quiet hs
  have hp := hr.coherent.passes now a
  constructor
  · by_cases ha : a = .connect
    · subst ha
      rfl
    · exact (hp.quiet hr.coherent ha hquiet).1
  · intro ht
    cases ht with
    | due hdue => exact hquiet.1 (.inr (Option.isSome_iff_exists.mpr ⟨_, hdue⟩))

theorem Recorded.answers (hr : Recorded delay h c) : Moment.Answers ⟨c, now, a⟩ delay := by
  have hc := hr.coherent
  have hp := hc.passes now a
  constructor
  case opened =>
    rintro rfl hh hq
    simp_all [Moment.event, act, arrive, expects]
  case heard =>
    rintro s rfl hs
    have hq := hc.queue_of_open (hc.open_of_receiver hs)
    simp_all [Moment.event, act, arrive, expects]
  case failed =>
    rintro x fault rfl hx hl
    exact hp.failed hl hx
  case ended =>
    rintro rfl hl
    exact hp.ended hl
  case scheduled =>
    intro hl
    rw [← hr.pace]
    exact hp.scheduled hc hl
  case attempted => exact hp.attempted
  case loses_iff => exact hp.loses_iff hc
  case tries_iff => exact hp.tries_iff hc

end Next

/-- After any run, whatever comes next. A handshake that is done opens the socket; one that is
refused is lost, as a socket is that ends or breaks; the loss is told and sets the timer, and the
timer starts the attempt. Between two opens lies a close. Text comes from the socket that opened
last. An error is followed by its close. Once told to connect, a connection holds a socket or is on
its way to one. Every loss is followed by one attempt of its own, a delay later or as soon as the
connection is awaited after that, unless it is told what to do before. Nothing comes of a connection
that was closed. -/
theorem deliveries_and_retries (endpoint : Url) (delay : Nat) (acts : List (Nat × Act)) (now : Nat)
    (a : Act) :
    let c := (new endpoint delay).after acts
    let h := (new endpoint delay).history acts
    let m : Moment := ⟨c, now, a⟩
    m.Answers delay ∧
    (m.event = some .open →
      ¬ Since (·.event = some .open) (fun x => x.event ≠ some .close ∧ x.input ≠ .close) h) ∧
    (∀ s, m.event = some (.text s) →
      Since (·.event = some .open) (fun x => x.event ≠ some .close ∧ ¬ x.input.Steers) h) ∧
    (Since Moment.Fails (fun x => x.event = none ∧ x.input ≠ .close) h →
      (∀ e, m.event = some e → e = .close) ∧ (a = .deliver → m.event = some .close)) ∧
    (Since (·.input = .connect) (·.input ≠ .close) h →
      c.handshake.isSome ∨ (c.sender.isSome ∧ c.receiver.isSome) ∨ c.timer.isSome) ∧
    (m.Tries → Since (fun x => x.Loses ∧ x.now + delay ≤ now) Moment.Waits h) ∧
    (m.Loses → ¬ Since Moment.Loses (fun x => ¬ x.Tries ∧ ¬ x.input.Steers) h) ∧
    (∀ due, Since (fun x => x.Loses ∧ x.now + delay = due) Moment.Waits h → c.queue = [] →
      ∀ offers start deadline, max start due ≤ deadline → ∃ idle rest,
        c.awaited deadline start offers = idle ++ (max start due, .arrive .timeUp) :: rest ∧
        c.after idle = c ∧ (∀ x ∈ c.history idle, x.event = none) ∧
        Moment.Tries ⟨c, max start due, .arrive .timeUp⟩) ∧
    (Since (·.input = .close) (·.input ≠ .connect) h → m.event = none ∧ ¬ m.Tries) := by
  intro c h m
  have hr : Recorded delay h c := recorded_after endpoint delay acts
  refine ⟨hr.answers, ?_, ?_, ?_, ?_, ?_, ?_, ?_, ?_⟩
  · intro he
    exact hr.open_event he
  · intro s he
    exact hr.text_event he
  · intro hs
    refine ⟨fun e he => hr.after_error hs he, ?_⟩
    rintro rfl
    simp [m, Moment.event, act, deliver?, hr.failed hs]
  · intro hs
    exact hr.held hs
  · intro ht
    exact hr.tries ht
  · intro hl
    exact hr.loses hl
  · intro due hs hq offers start deadline hle
    exact awaited_tries hr.coherent ((hr.timer due).mpr hs) hq offers start hle
  · intro hs
    exact hr.silent hs

def refusedThenLost : List (Nat × Act) :=
  [(0, .connect), (5, .arrive (.handshakeFailed .system)), (6, .deliver), (105, .arrive .timeUp),
    (110, .arrive .handshakeDone), (120, .arrive .ended)]

/-- The refusal at 5 is tried again at 105, and the loss at 120 at 220. -/
theorem refused_and_lost_are_each_tried_again :
    let start := new (default : Url) 100
    let refused : Moment := ⟨start.after (refusedThenLost.take 1), 5,
      .arrive (.handshakeFailed .system)⟩
    let retried : Moment := ⟨start.after (refusedThenLost.take 3), 105, .arrive .timeUp⟩
    let lost : Moment := ⟨start.after (refusedThenLost.take 5), 120, .arrive .ended⟩
    let c := start.after refusedThenLost
    (refused.Loses ∧ refused.event = some (.error .system) ∧ refused.after.queue = [.close] ∧
      refused.after.timer = some 105) ∧
    (retried.Tries ∧ retried.after.handshake = some default ∧
      Since (fun x => x.Loses ∧ x.now + 100 ≤ 105) Moment.Waits
        (start.history (refusedThenLost.take 3))) ∧
    (lost.Loses ∧ lost.event = some .close ∧ lost.after.timer = some 220) ∧
    ∃ idle rest, c.awaited 300 130 [(140, .ended)] = idle ++ (220, .arrive .timeUp) :: rest ∧
      c.after idle = c ∧ (∀ x ∈ c.history idle, x.event = none) ∧
      Moment.Tries ⟨c, 220, .arrive .timeUp⟩ := by
  intro start refused retried lost c
  have hrefused : refused.Loses := .refused rfl rfl
  have hretried : retried.Tries := .due rfl (by decide) rfl
  have hlost : lost.Loses := .ended rfl rfl
  have hsince : Since (fun x => x.Loses ∧ x.now + 100 = 220) Moment.Waits
      (start.history refusedThenLost) :=
    ⟨start.history (refusedThenLost.take 5), lost, [], rfl, ⟨hlost, rfl⟩, by simp⟩
  obtain ⟨hfirst, -⟩ := deliveries_and_retries default 100 (refusedThenLost.take 1) 5
    (.arrive (.handshakeFailed .system))
  obtain ⟨hsecond, -, -, -, -, hcause, -⟩ := deliveries_and_retries default 100
    (refusedThenLost.take 3) 105 (.arrive .timeUp)
  obtain ⟨hthird, -⟩ := deliveries_and_retries default 100 (refusedThenLost.take 5) 120
    (.arrive .ended)
  obtain ⟨-, -, -, -, -, -, -, hawaited, -⟩ := deliveries_and_retries default 100 refusedThenLost
    220 (.arrive .timeUp)
  refine ⟨?_, ?_, ?_, hawaited 220 hsince rfl [(140, .ended)] 130 300 (by decide)⟩
  · obtain ⟨hevent, hqueue⟩ := hfirst.failed _ .system rfl rfl hrefused
    exact ⟨hrefused, hevent, hqueue, hfirst.scheduled hrefused⟩
  · exact ⟨hretried, hsecond.attempted hretried, hcause hretried⟩
  · exact ⟨hlost, (hthird.ended rfl hlost).1, hthird.scheduled hlost⟩

end MediaRemote.Connection
