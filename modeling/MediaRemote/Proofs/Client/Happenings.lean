import MediaRemote.Proofs.Client.Runs

namespace MediaRemote.Client

open Session (Rpc)
open Wire (Message Request)

variable {ρ : Type}

inductive Happening
  | opened (socket : Nat)
  | dropped (socket : Nat)
  /-- Another player is followed from here on. -/
  | changed
  /-- A text was read from the socket; if it answers a request, it is this one. -/
  | heard (socket : Nat) (text : String) (answered : Option Request)
  | issued (q : Request)
  | wrote (socket : Nat) (frame : String)

namespace Happening

@[simp]
def opened? : Happening → Option Nat
  | opened k => some k
  | _ => none

@[simp]
def issued? : Happening → Option Request
  | issued q => some q
  | _ => none

@[simp]
def wrote? (k : Nat) : Happening → Option String
  | wrote j frame => if j = k then some frame else none
  | _ => none

end Happening

def socketsIn (log : List Happening) : List Nat := log.filterMap Happening.opened?

def requestsIn (log : List Happening) : List Request := log.filterMap Happening.issued?

def writtenOn (k : Nat) (log : List Happening) : List String := log.filterMap (Happening.wrote? k)

/-- A socket is still to come, or lasts, or is gone, with the requests that were issued while it
lasted. -/
inductive Life
  | ahead
  | lasting (issued : List Request)
  | gone (issued : List Request)

def Life.requests : Life → List Request
  | ahead => []
  | lasting issued | gone issued => issued

def Life.next (k : Nat) : Life → Happening → Life
  | ahead, .opened j => if j = k then .lasting [] else .ahead
  | lasting issued, .issued q => .lasting (issued ++ [q])
  | lasting issued, .dropped j => if j = k then .gone issued else .lasting issued
  | l, _ => l

def life (k : Nat) (log : List Happening) : Life := log.foldl (Life.next k) .ahead

def Lasts (k : Nat) (log : List Happening) : Prop := ∃ issued, life k log = .lasting issued

/-- What happened since the player was last changed. -/
def session (log : List Happening) : List Happening :=
  log.foldl (fun part h => match h with | .changed => [] | h => part ++ [h]) []

/-- What may happen after this history. Sockets are numbered in turn, one at a time; requests are
numbered in turn in every session, once a socket has opened in it. -/
def Allowed (log : List Happening) : Happening → Prop
  | .opened k => k = (socketsIn log).length ∧ ∀ j, ¬ Lasts j log
  | .dropped k => Lasts k log
  | .changed => ∀ j, ¬ Lasts j log
  | .heard k text answered => Lasts k log ∧
      ∀ q, answered = some q → q ∈ (life k log).requests ∧
        ∃ message, Message.decoder.parse text = .ok message ∧ message.requestId = some q.id
  | .issued q => q.id = (requestsIn (session log)).length ∧ ∃ k, .opened k ∈ session log
  | .wrote k frame => Lasts k log ∧ frame ∈ (life k log).requests.map Rpc.encode

/-- The requests in flight that were not yet numbered when `first` was the next number. -/
def issuedFrom (first : Nat) (r : Rpc ρ) : List Request :=
  (r.pending.filter fun p => first ≤ p.request.id).map (·.request)

def answeredBy (text : String) (r : Rpc ρ) : Option Request :=
  (r.receive text).toOption.bind (·.1.request)

/-- What happens while the connection goes from `c` to `d` and the requests from `r` to `r'`. A
socket is dropped before anything else, and one that opens is open before the player hears of it.
With another player the numbering starts anew. -/
def happenings (c d : Connection) (r r' : Rpc ρ) (delivered : Option Connection.Event)
    (target : Option Url) (written : List (Nat × String)) : List Happening :=
  ((c.socket?.filter (d.socket? != some ·)).map Happening.dropped).toList ++
  (target.map fun _ => Happening.changed).toList ++
  ((d.socket?.filter (c.socket? != some ·)).map Happening.opened).toList ++
  (match delivered, c.socket? with
    | some (.text s), some k => [.heard k s (answeredBy s r)]
    | _, _ => []) ++
  (issuedFrom (if target.isSome then 0 else r.nextId) r').map .issued ++
  written.map fun w => .wrote w.1 w.2

def Taken.happenings [Url.Idna] (t : Taken ρ) : List Happening :=
  Client.happenings t.before.connection t.turn.client.connection t.before.player.rpc
    t.turn.client.player.rpc (delivered t.now t.input t.before.connection)
    (t.input.target? t.before.origin) (t.turn.effects.filterMap Effect.written?)

def Run.happenings [Url.Idna] (r : Run ρ) : List Happening := r.taken.flatMap Taken.happenings

variable {k : Nat} {log : List Happening} {h : Happening}

@[simp]
theorem life_concat (k : Nat) (log : List Happening) (h : Happening) :
    life k (log ++ [h]) = (life k log).next k h := by
  simp [life]

@[simp]
theorem writtenOn_concat (k : Nat) (log : List Happening) (h : Happening) :
    writtenOn k (log ++ [h]) = writtenOn k log ++ (h.wrote? k).toList := by
  simp [writtenOn, List.filterMap_eq_flatMap_toList]

@[simp]
theorem socketsIn_concat (log : List Happening) (h : Happening) :
    socketsIn (log ++ [h]) = socketsIn log ++ h.opened?.toList := by
  simp [socketsIn, List.filterMap_eq_flatMap_toList]

@[simp]
theorem requestsIn_concat (log : List Happening) (h : Happening) :
    requestsIn (log ++ [h]) = requestsIn log ++ h.issued?.toList := by
  simp [requestsIn, List.filterMap_eq_flatMap_toList]

/-- A session ends where another player is followed, and nowhere else. -/
@[simp]
theorem session_concat (log : List Happening) (h : Happening) :
    session (log ++ [h]) = match h with | .changed => [] | h => session log ++ [h] := by
  simp [session]

def Lawful (log : List Happening) : Prop :=
  ∀ before h after, log = before ++ h :: after → Allowed before h

theorem lawful_nil : Lawful [] := by
  intro before h after hs
  simp at hs

theorem Lawful.concat (hl : Lawful log) (ha : Allowed log h) : Lawful (log ++ [h]) := by
  intro before x after hs
  rcases History.split_concat hs with ⟨rest, hold, -⟩ | ⟨rfl, rfl, -⟩
  · exact hl before x rest hold
  · exact ha

theorem requests_next (k : Nat) (l : Life) (h : Happening) :
    ∃ rest, rest.Sublist h.issued?.toList ∧ (l.next k h).requests = l.requests ++ rest := by
  cases l with
  | lasting issued =>
    cases h with
    | issued q => exact ⟨[q], .refl _, rfl⟩
    | dropped j =>
      refine ⟨[], .slnil, ?_⟩
      by_cases hj : j = k <;> simp [Life.next, Life.requests, hj]
    | _ => exact ⟨[], .slnil, by simp [Life.next]⟩
  | ahead =>
    refine ⟨[], List.nil_sublist _, ?_⟩
    cases h with
    | opened j => by_cases hj : j = k <;> simp [Life.next, Life.requests, hj]
    | _ => rfl
  | gone issued => exact ⟨[], List.nil_sublist _, by simp [Life.next]⟩

/-- As the history goes on, requests are added at the end, and only those that are issued. -/
theorem requests_append (k : Nat) (log more : List Happening) :
    ∃ rest, rest.Sublist (requestsIn more) ∧
      (life k (log ++ more)).requests = (life k log).requests ++ rest := by
  induction more using List.reverseRecOn with
  | nil => exact ⟨[], .slnil, by simp⟩
  | append_singleton more h ih =>
    obtain ⟨rest, hr, he⟩ := ih
    obtain ⟨last, hl, hn⟩ := requests_next k (life k (log ++ more)) h
    refine ⟨rest ++ last, ?_, ?_⟩
    · rw [requestsIn_concat]
      exact hr.append hl
    · rw [← List.append_assoc, life_concat, hn, he, List.append_assoc]

theorem gone_append {issued : List Request} (ho : life k log = .gone issued)
    (more : List Happening) : life k (log ++ more) = .gone issued := by
  induction more using List.reverseRecOn with
  | nil => simpa using ho
  | append_singleton more h ih =>
    rw [← List.append_assoc, life_concat, ih]
    rfl

/-- A request that the socket counts among its own, and whose number was not given out again, was
issued while the socket lasted. -/
theorem lasts_of_last_issued {before : List Happening} {q x : Request}
    (hl : Lasts k (before ++ .issued x :: log))
    (hq : q ∈ (life k (before ++ .issued x :: log)).requests)
    (hn : ((life k (before ++ .issued x :: log)).requests.map (·.id)).Nodup) (hx : x.id = q.id)
    (hlast : ∀ y ∈ requestsIn log, y.id ≠ q.id) : x = q ∧ Lasts k before := by
  have hs : before ++ .issued x :: log = before ++ [.issued x] ++ log := by simp
  rw [hs] at hl hq hn
  obtain ⟨rest, hr, he⟩ := requests_append k (before ++ [.issued x]) log
  cases hb : life k before with
  | ahead =>
    -- all its requests were issued after `x`, `q` among them
    rw [he, life_concat, hb] at hq
    exact absurd rfl (hlast q (hr.subset hq))
  | gone issued =>
    obtain ⟨more, hm⟩ := hl
    rw [List.append_assoc, gone_append hb] at hm
    cases hm
  | lasting issued =>
    have hxm : x ∈ (life k (before ++ [.issued x] ++ log)).requests := by
      rw [he, life_concat, hb]
      simp [Life.next, Life.requests]
    exact ⟨List.inj_on_of_nodup_map hn hxm hq hx, issued, hb⟩

theorem issuedFrom_below {first : Nat} {r : Rpc ρ} (hb : ∀ p ∈ r.pending, p.request.id < first) :
    issuedFrom first r = [] := by
  have : r.pending.filter (fun p => first ≤ p.request.id) = [] := by
    rw [List.filter_eq_nil_iff]
    intro p hp
    simpa using hb p hp
  rw [issuedFrom, this, List.map_nil]

theorem issuedFrom_extend {r : Rpc ρ} {ps : List (Session.Pending ρ)}
    (hb : ∀ p ∈ r.pending, p.request.id < r.nextId) (hn : Rpc.NumberedFrom r.nextId ps) :
    issuedFrom r.nextId (r.extend ps) = ps.map (·.request) := by
  have hps : ps.filter (fun p => r.nextId ≤ p.request.id) = ps := by
    rw [List.filter_eq_self]
    intro p hp
    have hm : p.request.id ∈ List.range' r.nextId ps.length := by
      rw [← hn]
      exact List.mem_map_of_mem hp
    simpa using (List.mem_range'_1.mp hm).1
  have hold := issuedFrom_below hb
  simp only [issuedFrom, Rpc.extend, List.filter_append, List.map_append, hps] at hold ⊢
  rw [hold, List.nil_append]

theorem answeredBy_eq_some {r : Rpc ρ} {text : String} {q : Request}
    (ha : answeredBy text r = some q) :
    q ∈ r.pending.map (·.request) ∧
      ∃ message, Message.decoder.parse text = .ok message ∧ message.requestId = some q.id := by
  unfold answeredBy at ha
  cases hr : r.receive text with
  | error fault => simp [hr, Except.toOption] at ha
  | ok out =>
    obtain ⟨i, r'⟩ := out
    have hi : i.request = some q := by simpa [hr, Except.toOption] using ha
    obtain ⟨⟨p, hp, rfl⟩, hm⟩ := Rpc.receive_request hr hi
    exact ⟨List.mem_map_of_mem hp, hm⟩

section Turns

variable {c d : Connection} {r r' : Rpc ρ} {e : Option Connection.Event}

theorem happenings_of_kept (w : List (Nat × String)) :
    happenings c c r r' none none w =
      (issuedFrom r.nextId r').map .issued ++ w.map fun w => .wrote w.1 w.2 := by
  cases hc : c.socket? <;> simp [happenings, hc, Option.filter]

theorem happenings_of_heard (hc : c.socket? = some k) (text : String) (w : List (Nat × String)) :
    happenings c c r r' (some (.text text)) none w =
      .heard k text (answeredBy text r) ::
        ((issuedFrom r.nextId r').map .issued ++ w.map fun w => .wrote w.1 w.2) := by
  simp [happenings, hc, Option.filter]

theorem happenings_of_opened (hc : c.socket? = none) (hd : d.socket? = some k)
    (w : List (Nat × String)) :
    happenings c d r r' e none w =
      .opened k :: ((issuedFrom r.nextId r').map .issued ++ w.map fun w => .wrote w.1 w.2) := by
  simp [happenings, hc, hd, Option.filter]

theorem happenings_of_lost (hd : d.socket? = none) (he : ∀ s, e ≠ some (.text s))
    (hi : issuedFrom r.nextId r' = []) :
    happenings c d r r' e none [] = (c.socket?.map Happening.dropped).toList := by
  unfold happenings
  rw [hd]
  cases e with
  | none => cases c.socket? <;> simp [hi, Option.filter]
  | some e =>
    cases e with
    | text s => exact absurd rfl (he s)
    | _ => cases c.socket? <;> simp [hi, Option.filter]

theorem happenings_of_changed (hd : d.socket? = none) (endpoint : Url) :
    happenings c d r (.new : Rpc ρ) none (some endpoint) [] =
      (c.socket?.map Happening.dropped).toList ++ [.changed] := by
  unfold happenings
  rw [hd]
  cases c.socket? <;> simp [issuedFrom, Rpc.new, Option.filter]

end Turns

end MediaRemote.Client
