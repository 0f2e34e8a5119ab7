import MediaRemote.Proofs.Client.Happenings

namespace MediaRemote.Client

open Session (Pending Player PlayerStep Rpc)
open Wire (Message Request)

variable {ρ : Type} {socket : Option Nat} {opened k : Nat} {r : Rpc ρ} {log : List Happening}

/-- Requests that begin with the question for the capabilities and are numbered in turn, up to the
next number. -/
def Orderly (next : Nat) (qs : List Request) : Prop :=
  ∃ n rest, qs = .new n "capabilities" .null :: rest ∧
    qs.map (·.id) = List.range' n qs.length ∧ n + qs.length = next

theorem Orderly.concat {next : Nat} {qs : List Request} {q : Request} (h : Orderly next qs)
    (hq : q.id = next) : Orderly (next + 1) (qs ++ [q]) := by
  obtain ⟨n, rest, rfl, hn, hl⟩ := h
  refine ⟨n, rest ++ [q], rfl, ?_, ?_⟩
  · rw [List.map_append, hn, List.length_append, ← List.range'_append_1, hl]
    simp [hq]
  · rw [List.length_append, List.length_singleton]
    omega

/-- How a socket stands to what the client holds. While it lasts, its requests that were not written
are in the outbox, and all that are in flight are its own. Requests that are issued between a socket
and the close that is told of it are carried by none. -/
inductive Fares (socket : Option Nat) (opened : Nat) (r : Rpc ρ) (k : Nat) (written : List String) :
    Life → Prop
  | ahead (hs : socket ≠ some k) (hk : opened ≤ k) (hw : written = []) :
    Fares socket opened r k written .ahead
  | lasting {issued} (hs : socket = some k) (hk : k < opened) (hi : Orderly r.nextId issued)
    (hw : written ++ r.outbox = issued.map Rpc.encode)
    (hp : (r.pending.map (·.request)).Sublist issued) :
    Fares socket opened r k written (.lasting issued)
  | gone {issued next} (hs : socket ≠ some k) (hk : k < opened) (hi : Orderly next issued)
    (hw : written = issued.map Rpc.encode) : Fares socket opened r k written (.gone issued)

theorem Fares.forget {r' : Rpc ρ} {written : List String} {l : Life}
    (h : Fares none opened r k written l) : Fares none opened r' k written l := by
  cases h with
  | ahead hs hk hw => exact .ahead hs hk hw
  | lasting hs => cases hs
  | gone hs hk hi hw => exact .gone hs hk hi hw

/-- The log of a client is lawful and says what the client holds. -/
structure Ledger (socket : Option Nat) (opened : Nat) (r : Rpc ρ) (log : List Happening) :
    Prop where
  lawful : Lawful log
  fares : ∀ k, Fares socket opened r k (writtenOn k log) (life k log)
  sockets : (socketsIn log).length = opened
  counted : r.nextId = (requestsIn (session log)).length
  begun : r.isOpen = true → ∃ k, .opened k ∈ session log
  closed : r.isOpen = false → r.pending = []
  below : ∀ p ∈ r.pending, p.request.id < r.nextId

theorem ledger_nil : Ledger none 0 (.new : Rpc ρ) [] where
  lawful := lawful_nil
  fares k := .ahead (by simp) (Nat.zero_le k) rfl
  sockets := rfl
  counted := rfl
  begun ho := by cases ho
  closed _ := rfl
  below := by simp [Rpc.new]

namespace Ledger

theorem lasts_iff (h : Ledger socket opened r log) : Lasts k log ↔ socket = some k := by
  unfold Lasts
  have hf := h.fares k
  generalize life k log = l at hf
  cases hf with
  | ahead hs | gone hs => simp [hs]
  | lasting hs => simp [hs]

theorem idle (h : Ledger none opened r log) (k : Nat) : ¬ Lasts k log := by
  rw [h.lasts_iff]
  simp

/-- On a socket that lasts, what is in flight and what is queued are its own. -/
theorem own (h : Ledger (some k) opened r log) :
    writtenOn k log ++ r.outbox = (life k log).requests.map Rpc.encode ∧
      (r.pending.map (·.request)).Sublist (life k log).requests := by
  have hf := h.fares k
  generalize life k log = l at hf
  cases hf with
  | ahead hs | gone hs => exact absurd rfl hs
  | lasting _ _ _ hw hp => exact ⟨hw, hp⟩

theorem written (h : Ledger socket opened r log) (ho : r.outbox = []) (k : Nat) :
    writtenOn k log = (life k log).requests.map Rpc.encode := by
  have hf := h.fares k
  generalize life k log = l at hf
  cases hf with
  | ahead _ _ hw | gone _ _ _ hw => exact hw
  | lasting _ _ _ hw => simpa [ho, Life.requests] using hw

/-- Sockets are numbered in turn, so one that has opened is behind the counter. -/
theorem lt_opened (h : Ledger socket opened r log) (hk : .opened k ∈ log) : k < opened := by
  obtain ⟨before, after, rfl⟩ := List.append_of_mem hk
  obtain ⟨rfl, -⟩ := h.lawful before _ after rfl
  rw [← h.sockets]
  simp [socketsIn]

theorem orderly (h : Ledger socket opened r log) (hk : .opened k ∈ log) :
    ∃ next, Orderly next (life k log).requests := by
  have hlt := h.lt_opened hk
  have hf := h.fares k
  generalize life k log = l at hf
  cases hf with
  | ahead _ hle => omega
  | lasting _ _ hi | gone _ _ hi => exact ⟨_, hi⟩

theorem ids_nodup (h : Ledger socket opened r log) (k : Nat) :
    ((life k log).requests.map (·.id)).Nodup := by
  have hf := h.fares k
  generalize life k log = l at hf
  cases hf with
  | ahead => exact List.nodup_nil
  | lasting _ _ hi | gone _ _ hi =>
    obtain ⟨n, -, -, hn, -⟩ := hi
    simp only [Life.requests, hn]
    exact List.nodup_range'

/-- The last request that was issued under the number of the answered one is the answered one, and
was issued while the socket lasted on which the answer is read. -/
theorem heard_of_last_issued {before mid after : List Happening} {text : String} {q x : Request}
    (h : Ledger socket opened r log)
    (hs : log = before ++ .issued x :: mid ++ .heard k text (some q) :: after) (hx : x.id = q.id)
    (hlast : ∀ y ∈ requestsIn mid, y.id ≠ q.id) : x = q ∧ Lasts k before := by
  obtain ⟨hl, ha⟩ := h.lawful _ _ after hs
  obtain ⟨hq, -⟩ := ha q rfl
  -- the numbers given out on `k` differ in the whole log, so they do before this place
  have hn := h.ids_nodup k
  obtain ⟨rest, -, he⟩ := requests_append k (before ++ .issued x :: mid)
    (.heard k text (some q) :: after)
  rw [hs, he, List.map_append] at hn
  exact lasts_of_last_issued hl hq (hn.sublist (List.sublist_append_left _ _)) hx hlast

theorem drop (h : Ledger (some k) opened r log) (ho : r.outbox = []) :
    Ledger none opened r (log ++ [.dropped k]) where
  lawful := by
    have hl : Lasts k log := h.lasts_iff.mpr rfl
    exact h.lawful.concat hl
  fares j := by
    have hf := h.fares j
    simp only [life_concat, writtenOn_concat]
    generalize life j log = l at hf
    cases hf with
    | ahead hs hk hw => exact .ahead (by simp) hk (by simp [hw])
    | lasting hs hk hi hw =>
      obtain rfl : k = j := by simpa using hs
      simp only [Life.next, if_true]
      exact .gone (by simp) hk hi (by simpa [ho] using hw)
    | gone hs hk hi hw => exact .gone (by simp) hk hi (by simp [hw])
  sockets := by simp [h.sockets]
  counted := by simp [h.counted]
  begun ho := by simpa using h.begun ho
  closed := h.closed
  below := h.below

theorem change (h : Ledger none opened r log) :
    Ledger none opened (.new : Rpc ρ) (log ++ [.changed]) where
  lawful := h.lawful.concat h.idle
  fares j := by
    have hn : (life j log).next j .changed = life j log := by cases life j log <;> rfl
    rw [life_concat, hn, writtenOn_concat]
    simpa using (h.fares j).forget
  sockets := by simp [h.sockets]
  counted := by simp [requestsIn, Rpc.new]
  begun ho := by cases ho
  closed _ := rfl
  below := by simp [Rpc.new]

/-- Without a socket, what is queued goes nowhere, and all that is in flight may be forgotten. -/
theorem forget (h : Ledger none opened r log) {r' : Rpc ρ} (hn : r'.nextId = r.nextId)
    (hp : r'.pending = r.pending ∧ r'.isOpen = r.isOpen ∨ r'.pending = [] ∧ r'.isOpen = false) :
    Ledger none opened r' log where
  lawful := h.lawful
  fares j := (h.fares j).forget
  sockets := h.sockets
  counted := hn.trans h.counted
  begun ho := by
    rcases hp with ⟨-, he⟩ | ⟨-, he⟩
    · exact h.begun (he ▸ ho)
    · rw [he] at ho
      cases ho
  closed ho := by
    rcases hp with ⟨hp, he⟩ | ⟨hp, -⟩
    · rw [hp, h.closed (he ▸ ho)]
    · exact hp
  below p hm := by
    rcases hp with ⟨hp, -⟩ | ⟨hp, -⟩
    · rw [hn]
      exact h.below p (hp ▸ hm)
    · rw [hp] at hm
      cases hm

theorem issue (h : Ledger socket opened r log) {p : Pending ρ} (hid : p.request.id = r.nextId)
    (ho : r.isOpen = true) : Ledger socket opened (r.extend [p]) (log ++ [.issued p.request]) where
  lawful := h.lawful.concat ⟨hid.trans h.counted, h.begun ho⟩
  fares j := by
    have hf := h.fares j
    simp only [life_concat, writtenOn_concat]
    generalize life j log = l at hf
    cases hf with
    | ahead hs hk hw => exact .ahead hs hk (by simp [hw])
    | lasting hs hk hi hw hp =>
      refine .lasting hs hk (hi.concat hid) ?_ ?_
      · simp [Rpc.extend, ← hw]
      · simpa [Rpc.extend] using hp
    | gone hs hk hi hw => exact .gone hs hk hi (by simp [hw])
  sockets := by simp [h.sockets]
  counted := by simp [Rpc.extend, h.counted]
  begun _ := by
    obtain ⟨k, hk⟩ := h.begun ho
    exact ⟨k, by simp [hk]⟩
  closed hc := by
    change r.isOpen = false at hc
    rw [ho] at hc
    cases hc
  below q hq := by
    change q.request.id < r.nextId + 1
    rcases List.mem_append.mp hq with hq | hq
    · have := h.below q hq
      omega
    · rw [List.mem_singleton.mp hq]
      omega

theorem talk {ps : List (Pending ρ)} (h : Ledger socket opened r log)
    (hn : Rpc.NumberedFrom r.nextId ps) (ho : ps ≠ [] → r.isOpen = true) :
    Ledger socket opened (r.extend ps) (log ++ ps.map fun p => .issued p.request) := by
  induction ps generalizing r log with
  | nil => simpa [Rpc.extend_nil] using h
  | cons p ps ih =>
    simp only [Rpc.NumberedFrom, List.map_cons, List.length_cons, List.range'_succ,
      List.cons.injEq] at hn
    have hp := h.issue hn.1 (ho (by simp))
    have hps := ih hp hn.2 fun _ => ho (by simp)
    simpa [Rpc.extend_extend] using hps

/-- A socket opens, and the question for the capabilities is the first request on it. -/
theorem opens (h : Ledger none opened r log) (hc : r.isOpen = false) (ho : r.outbox = []) :
    let p := r.next "capabilities" .null none
    Ledger (some opened) (opened + 1) ((r.setOpen true).extend [p])
      (log ++ [.opened opened] ++ [.issued p.request]) := by
  intro p
  have hl : Lawful (log ++ [.opened opened]) := h.lawful.concat ⟨h.sockets.symm, h.idle⟩
  have hn : r.nextId = (requestsIn (session (log ++ [.opened opened]))).length := by
    simp [h.counted]
  have hs : .opened opened ∈ session (log ++ [.opened opened]) := by simp
  constructor
  case lawful => exact hl.concat ⟨hn, opened, hs⟩
  case fares =>
    intro j
    have hf := h.fares j
    simp only [life_concat, writtenOn_concat]
    generalize life j log = l at hf
    cases hf with
    | ahead hs hk hw =>
      by_cases hj : opened = j
      · -- nothing is in flight from before, as the player is not connected yet
        subst hj
        simp only [Life.next, if_true]
        refine .lasting rfl (Nat.lt_succ_self _) ⟨r.nextId, [], rfl, rfl, rfl⟩ ?_ ?_
        · simp [hw, Rpc.extend, Rpc.setOpen, ho]
        · simp [Rpc.extend, Rpc.setOpen, h.closed hc]
      · simp only [Life.next, hj, if_false]
        exact .ahead (by simpa using hj) (by omega) (by simp [hw])
    | lasting hs => cases hs
    | gone hs hk hi hw => exact .gone (by simp; omega) (by omega) hi (by simp [hw])
  case sockets =>
    simp only [socketsIn_concat, List.length_append, h.sockets]
    rfl
  case counted =>
    simp only [session_concat, requestsIn_concat, List.length_append, ← h.counted]
    rfl
  case begun =>
    intro _
    exact ⟨opened, by simp only [session_concat]; simp⟩
  case closed =>
    intro hc
    cases hc
  case below =>
    intro q hq
    obtain rfl : q = p := by simpa [Rpc.extend, Rpc.setOpen, h.closed hc] using hq
    exact Nat.lt_succ_self _

/-- A text that is read takes at most the request that it answers out of those in flight. -/
theorem hear {answered : Option Request} (h : Ledger (some k) opened r log) (text : String)
    (a : Option Nat)
    (ha : ∀ q, answered = some q → q ∈ r.pending.map (·.request) ∧
      ∃ message, Message.decoder.parse text = .ok message ∧ message.requestId = some q.id) :
    Ledger (some k) opened (r.without a) (log ++ [.heard k text answered]) where
  lawful := by
    refine h.lawful.concat ⟨h.lasts_iff.mpr rfl, ?_⟩
    intro q hq
    obtain ⟨hm, hid⟩ := ha q hq
    exact ⟨h.own.2.subset hm, hid⟩
  fares j := by
    have hf := h.fares j
    simp only [life_concat, writtenOn_concat]
    generalize life j log = l at hf
    cases hf with
    | ahead hs hk hw => exact .ahead hs hk (by simp [hw])
    | lasting hs hk hi hw hp =>
      refine .lasting hs hk hi ?_ ((List.filter_sublist.map _).trans hp)
      simpa [Rpc.without] using hw
    | gone hs hk hi hw => exact .gone hs hk hi (by simp [hw])
  sockets := by simp [h.sockets]
  counted := by simp [Rpc.without, h.counted]
  begun ho := by simpa using h.begun ho
  closed hc := by simp [Rpc.without, h.closed hc]
  below p hp := h.below p (Rpc.mem_without.mp hp).1

theorem write {frame : String} {rest : List String} (h : Ledger (some k) opened r log)
    (ho : r.outbox = frame :: rest) :
    Ledger (some k) opened { r with outbox := rest } (log ++ [.wrote k frame]) where
  lawful := by
    refine h.lawful.concat ⟨h.lasts_iff.mpr rfl, ?_⟩
    simp [← h.own.1, ho]
  fares j := by
    have hf := h.fares j
    simp only [life_concat, writtenOn_concat]
    generalize life j log = l at hf
    cases hf with
    | ahead hs hk hw =>
      have hne : k ≠ j := by simpa using hs
      exact .ahead hs hk (by simp [hw, hne])
    | lasting hs hk hi hw hp =>
      obtain rfl : k = j := by simpa using hs
      exact .lasting hs hk hi (by simp [← hw, ho]) hp
    | gone hs hk hi hw =>
      have hne : k ≠ j := by simpa using hs
      exact .gone hs hk hi (by simp [hw, hne])
  sockets := by simp [h.sockets]
  counted := by simp [h.counted]
  begun ho := by simpa using h.begun ho
  closed := h.closed
  below := h.below

/-- What is queued is written on the socket, or on none. -/
theorem flush (h : Ledger socket opened r log) :
    Ledger socket opened r.drain.2 (log ++
      (carried socket r.outbox).map fun w => .wrote w.1 w.2) := by
  cases socket with
  | none =>
    have hf : Ledger none opened r.drain.2 log := h.forget rfl (.inl ⟨rfl, rfl⟩)
    simpa using hf
  | some k =>
    simp only [Rpc.drain, carried]
    generalize ho : r.outbox = frames
    -- frame by frame: after each one the ledger holds with the rest in the outbox
    induction frames generalizing r log with
    | nil =>
      rw [List.map_nil, List.map_nil, List.append_nil, ← ho]
      exact h
    | cons frame rest ih =>
      have hw := ih (h.write ho) rfl
      simpa using hw

theorem release (h : Ledger socket opened r log) (ho : r.outbox = []) :
    Ledger none opened r (log ++ (socket.map Happening.dropped).toList) := by
  cases socket with
  | none => simpa using h
  | some k => exact h.drop ho

/-- The client is left without a socket, and the player issues nothing. -/
theorem lose {c d : Connection} {p q : Player ρ} {e : Option Connection.Event}
    (h : Ledger c.socket? c.opened p.rpc log) (ho : p.rpc.outbox = []) (hd : d.phase ≠ .open)
    (hk : d.opened = c.opened) (he : ∀ s, e ≠ some (.text s))
    (hn : q.rpc.nextId = p.rpc.nextId)
    (hp : q.rpc.pending = p.rpc.pending ∧ q.rpc.isOpen = p.rpc.isOpen ∨
      q.rpc.pending = [] ∧ q.rpc.isOpen = false) :
    Ledger d.socket? d.opened q.drain.2.rpc (log ++
      happenings c d p.rpc q.drain.2.rpc e none (carried d.socket? q.rpc.outbox)) := by
  have hs := Connection.socket?_of_not_open hd
  have hi : issuedFrom p.rpc.nextId q.drain.2.rpc = [] := by
    refine issuedFrom_below ?_
    change ∀ x ∈ q.rpc.pending, _
    rcases hp with ⟨hp, -⟩ | ⟨hp, -⟩
    · rw [hp]
      exact h.below
    · simp [hp]
  have hl := happenings_of_lost (r := p.rpc) (c := c) hs he hi
  simp only [hs, carried_none, hl, hk]
  exact (h.release ho).forget hn hp

theorem speak {q : Player ρ} (h : Ledger socket opened r log) (hq : r.Extends q.rpc) :
    Ledger socket opened q.drain.2.rpc (log ++
      ((issuedFrom r.nextId q.drain.2.rpc).map .issued ++
        (carried socket q.rpc.outbox).map fun w => .wrote w.1 w.2)) := by
  obtain ⟨ps, hn, ho, -, hr⟩ := hq
  have hi : issuedFrom r.nextId q.drain.2.rpc = ps.map (·.request) := by
    have hx := issuedFrom_extend h.below hn
    rwa [← hr] at hx
  have ht := (h.talk hn ho).flush
  rw [← hr] at ht
  rw [hi, List.map_map, ← List.append_assoc]
  exact ht

/-- The player reads a text on the socket, and then issues requests. -/
theorem hears {p q : Player ρ} {a : Option Nat} (h : Ledger (some k) opened p.rpc log)
    (text : String) (hq : (p.rpc.without a).Extends q.rpc) :
    Ledger (some k) opened q.drain.2.rpc (log ++
      (.heard k text (answeredBy text p.rpc) ::
        ((issuedFrom p.rpc.nextId q.drain.2.rpc).map .issued ++
          (carried (some k) q.rpc.outbox).map fun w => .wrote w.1 w.2))) := by
  have hh := (h.hear text a fun _ ha => answeredBy_eq_some ha).speak hq
  rw [List.append_assoc, List.singleton_append] at hh
  exact hh

theorem greets {p : Player ρ} (h : Ledger none opened p.rpc log) (hc : p.isConnected = false)
    (ho : p.rpc.outbox = []) :
    Ledger (some opened) (opened + 1) (Player.opened p).1.drain.2.rpc (log ++
      (.opened opened ::
        ((issuedFrom p.rpc.nextId (Player.opened p).1.drain.2.rpc).map .issued ++
          (carried (some opened) (Player.opened p).1.rpc.outbox).map fun w =>
            .wrote w.1 w.2))) := by
  have hr := Player.opened_rpc p
  have hi : issuedFrom p.rpc.nextId (Player.opened p).1.drain.2.rpc =
      [(p.rpc.next "capabilities" .null none).request] := by
    have hx := issuedFrom_extend (r := p.rpc.setOpen true)
      h.below (show Rpc.NumberedFrom _ [p.rpc.next "capabilities" .null none] from rfl)
    rwa [← hr] at hx
  have hf := (h.opens hc ho).flush
  rw [← hr, List.append_assoc, List.append_assoc, List.singleton_append] at hf
  rw [hi]
  exact hf

/-- Another player is followed: what was held is dropped and the numbering starts anew. -/
theorem changePlayer {c d : Connection} {p : Player ρ} {endpoint : Url}
    (h : Ledger c.socket? c.opened p.rpc log) (ho : p.rpc.outbox = []) (hd : d.phase ≠ .open)
    (hk : d.opened = c.opened) :
    Ledger d.socket? d.opened (Player.resetSession p).1.drain.2.rpc (log ++
      happenings c d p.rpc (Player.resetSession p).1.drain.2.rpc none (some endpoint)
        (carried d.socket? (Player.resetSession p).1.rpc.outbox)) := by
  have hs := Connection.socket?_of_not_open hd
  have hl := happenings_of_changed (r := p.rpc) (c := c) hs endpoint
  have hr : (Player.resetSession p).1.drain.2.rpc = .new := by
    rw [Player.resetSession_eq]
    rfl
  simp only [hs, carried_none, hk, hr, hl, ← List.append_assoc]
  exact (h.release ho).change

end Ledger

theorem ledger_course {now : Nat} {c d : Connection} {p : Player ρ} {f : PlayerStep ρ}
    {e : Option Connection.Event} {target : Option Url} (hf : Fits c p) (ho : p.rpc.outbox = [])
    (hc : Course now c e target d f) (h : Ledger c.socket? c.opened p.rpc log) :
    Ledger d.socket? d.opened (f p).1.drain.2.rpc (log ++
      happenings c d p.rpc (f p).1.drain.2.rpc e target
        (carried d.socket? (f p).1.rpc.outbox)) := by
  have hn : (Player.closed p).1.rpc.nextId = p.rpc.nextId := by
    rw [Player.closed_rpc]
    rfl
  have hp : (Player.closed p).1.rpc.pending = [] ∧ (Player.closed p).1.rpc.isOpen = false := by
    rw [Player.closed_rpc]
    exact ⟨rfl, rfl⟩
  -- only the first three courses can end with a socket
  cases hc with
  | stays hs =>
    rw [happenings_of_kept]
    exact h.speak (hs p).rpc
  | opens hh hq =>
    have hc := Connection.socket?_of_not_open (hf.coherent.not_open_of_handshake hh)
    rw [hc] at h
    rw [happenings_of_opened hc rfl]
    exact h.greets (hf.closed_of_handshake hh hq) ho
  | hears s hopen =>
    obtain ⟨k, hk⟩ := hf.coherent.socket?_of_open hopen
    obtain ⟨a, ha⟩ := Player.receive_extends p now s
    rw [hk] at h
    rw [happenings_of_heard hk, hk]
    exact h.hears s ha
  | ends =>
    exact h.lose ho (by simp [Connection.lose_phase]) (Connection.lose_opened now c) (by simp)
      hn (.inr hp)
  | fails fault notice =>
    refine h.lose ho ?_ (Connection.lose_opened now c) (by simp) rfl (.inl ⟨rfl, rfl⟩)
    simp [Connection.fail, Connection.enqueue, Connection.lose_phase]
  | retries => exact h.lose ho (by simp) rfl (by simp) rfl (.inl ⟨rfl, rfl⟩)
  | learns hne => exact h.lose ho hne rfl (by simp) hn (.inr hp)
  | reconnects =>
    exact h.lose ho (by simp [Connection.connect_phase]) (Connection.connect_opened c) (by simp)
      rfl (.inl ⟨rfl, rfl⟩)
  | changes endpoint =>
    refine h.changePlayer ho (by simp [Connection.connect_phase]) ?_
    rw [Connection.connect_opened]
    exact Connection.close_opened c
  | stops =>
    exact h.lose ho (by simp [Connection.close_phase]) (Connection.close_opened c) (by simp)
      hn (.inr hp)

theorem ledger_turn [Url.Idna] {c : Client ρ} (hs : Synced c)
    (h : Ledger c.connection.socket? c.connection.opened c.player.rpc log) (now : Nat) (i : Input) :
    let t : Taken ρ := ⟨now, i, c⟩
    Ledger t.turn.client.connection.socket? t.turn.client.connection.opened
      t.turn.client.player.rpc (log ++ t.happenings) := by
  intro t
  obtain ⟨d, f, hc, hp⟩ := course hs.fits.coherent hs.idle now i
  have hl := ledger_course hs.fits hs.idle hc h
  rw [← hp.written, ← hp.player, ← hp.connection] at hl
  exact hl

theorem run_ledger [Url.Idna] {s : Settings} {observer : Session.Observer} {c : Client ρ}
    (h : Starts s observer c) (inputs : List (Nat × Input)) :
    let r := run c inputs
    Ledger r.client.connection.socket? r.client.connection.opened r.client.player.rpc
      r.happenings := by
  induction inputs using List.reverseRecOn with
  | nil =>
    obtain ⟨hp, -, hne, -, hn⟩ := h.fresh
    simp only [run, List.foldl_nil, Connection.socket?_of_not_open hne, hn, hp]
    exact ledger_nil
  | append_singleton inputs i ih =>
    rw [run_concat, Run.step]
    split
    · have ht := ledger_turn (run_kept h inputs).synced ih i.1 i.2
      simpa [Run.happenings] using ht
    · exact ih

/-- A socket carries the requests that were issued while it lasted, and no others: all of them, in
turn, from the question for the capabilities on. Requests are numbered from 0 in every session,
across its sockets, and the first is issued on its first socket. A text that is read on a socket
answers a request that was issued while that socket lasted. -/
theorem sockets_carry_their_own_requests [Url.Idna] {s : Settings} {observer : Session.Observer}
    {c : Client ρ} (h : Starts s observer c) (inputs : List (Nat × Input)) :
    let r := run c inputs
    let log := r.happenings
    (∀ before x after, log = before ++ x :: after → Allowed before x) ∧
    (∀ k, Lasts k log ↔ r.client.connection.socket? = some k) ∧
    (∀ k, writtenOn k log = (life k log).requests.map Rpc.encode) ∧
    (∀ k, .opened k ∈ log → ∃ n rest, (life k log).requests = .new n "capabilities" .null :: rest ∧
      (life k log).requests.map (·.id) = List.range' n (rest.length + 1)) ∧
    r.client.player.rpc.nextId = (requestsIn (session log)).length ∧
    (∀ k, Lasts k log →
      (r.client.player.rpc.pending.map (·.request)).Sublist (life k log).requests) ∧
    (∀ before x mid k text q after,
      log = before ++ .issued x :: mid ++ .heard k text (some q) :: after → x.id = q.id →
        (∀ y ∈ requestsIn mid, y.id ≠ q.id) → x = q ∧ Lasts k before) := by
  intro r log
  have hl : Ledger r.client.connection.socket? r.client.connection.opened r.client.player.rpc log :=
    run_ledger h inputs
  refine ⟨hl.lawful, fun _ => hl.lasts_iff, hl.written (run_kept h inputs).synced.idle, ?_,
    hl.counted, ?_, ?_⟩
  · intro k hk
    obtain ⟨-, n, rest, he, hn, -⟩ := hl.orderly hk
    exact ⟨n, rest, he, by simpa [he] using hn⟩
  · intro k hk
    rw [hl.lasts_iff.mp hk] at hl
    exact hl.own.2
  · intro before x mid k text q after hs hx hlast
    exact hl.heard_of_last_issued hs hx hlast

attribute [local instance] Url.Idna.ascii in
/-- What is asked between two sockets takes a number too. -/
theorem numbering_goes_on :
    ∃ c : Client Nat, Starts (.withUrl "ws://h/p") .live c ∧
      (requestsIn (session (run c
        [(0, .arrival .handshakeDone), (1, .command .reconnect), (2, .command .load),
          (3, .delivery), (4, .arrival .handshakeDone)]).happenings)).length = 3 := by
  obtain ⟨endpoint, hc⟩ := plain_address_starts
  refine ⟨_, hc, ?_⟩
  obtain ⟨-, -, -, -, hn, -⟩ := sockets_carry_their_own_requests hc
    [(0, .arrival .handshakeDone), (1, .command .reconnect), (2, .command .load),
      (3, .delivery), (4, .arrival .handshakeDone)]
  rw [← hn]
  rfl

end MediaRemote.Client
