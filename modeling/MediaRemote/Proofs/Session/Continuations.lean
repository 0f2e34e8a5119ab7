import MediaRemote.Proofs.Session.Runs
import MediaRemote.Proofs.Wire.Messages

namespace MediaRemote.Session

open History (Since)
open Json (Value)
open Step PlayerStep

variable {ρ : Type}

def Effect.reply? : Effect ρ → Option (ρ × Option Value)
  | .reply r result => some (r, result)
  | _ => none

namespace Rpc

def Holds (r : Rpc ρ) (id : Nat) (method : String) (reply : ρ) : Prop :=
  ∃ p ∈ r.pending, p.request.id = id ∧ p.request.method = method ∧ p.reply = some reply

/-- Requests in flight are in the order of their identifiers, all of which were given out. -/
structure Orderly (r : Rpc ρ) : Prop where
  ordered : (r.pending.map (·.request.id)).Pairwise (· < ·)
  below : ∀ p ∈ r.pending, p.request.id < r.nextId

theorem orderly_new : Orderly (new : Rpc ρ) := ⟨List.Pairwise.nil, by simp [new]⟩

theorem orderly_reset (r : Rpc ρ) : Orderly r.reset := ⟨List.Pairwise.nil, by simp [reset]⟩

theorem Orderly.without {r : Rpc ρ} (h : Orderly r) (answered : Option Nat) :
    Orderly (r.without answered) := by
  constructor
  · exact h.ordered.sublist (List.filter_sublist.map _)
  · intro p hp
    exact h.below p (List.mem_of_mem_filter hp)

/-- New requests take the next identifiers, so they go behind all others. -/
theorem Orderly.extend {r : Rpc ρ} (h : Orderly r) {ps : List (Pending ρ)}
    (hn : NumberedFrom r.nextId ps) : Orderly (r.extend ps) := by
  have hnew : ∀ p ∈ ps, r.nextId ≤ p.request.id ∧ p.request.id < r.nextId + ps.length := by
    intro p hp
    have hm : p.request.id ∈ List.range' r.nextId ps.length := by
      rw [← hn]
      exact List.mem_map_of_mem hp
    exact List.mem_range'_1.mp hm
  constructor
  · simp only [Rpc.extend, List.map_append, List.pairwise_append]
    refine ⟨h.ordered, ?_, ?_⟩
    · rw [hn]
      exact List.pairwise_lt_range'
    · intro i hi j hj
      obtain ⟨p, hp, rfl⟩ := List.mem_map.mp hi
      obtain ⟨q, hq, rfl⟩ := List.mem_map.mp hj
      have := h.below p hp
      have := hnew q hq
      omega
  · intro p hp
    simp only [Rpc.extend, List.mem_append] at hp ⊢
    rcases hp with hp | hp
    · have := h.below p hp
      omega
    · exact (hnew p hp).2

theorem Orderly.extends {r r' : Rpc ρ} (h : Orderly r) (he : r.Extends r') : Orderly r' := by
  obtain ⟨ps, hn, -, -, rfl⟩ := he
  exact h.extend hn

theorem holds_without {r : Rpc ρ} {answered : Option Nat} {id : Nat} {method : String}
    {reply : ρ} :
    (r.without answered).Holds id method reply ↔ r.Holds id method reply ∧ answered ≠ some id := by
  constructor
  · rintro ⟨p, hp, rfl, hm, hr⟩
    obtain ⟨hp, hne⟩ := mem_without.mp hp
    exact ⟨⟨p, hp, rfl, hm, hr⟩, hne⟩
  · rintro ⟨⟨p, hp, rfl, hm, hr⟩, hne⟩
    exact ⟨p, mem_without.mpr ⟨hp, hne⟩, rfl, hm, hr⟩

/-- Nobody waits for what handlers and commands ask for. -/
theorem holds_extend {r : Rpc ρ} {ps : List (Pending ρ)} (hp : ∀ p ∈ ps, p.reply = none) {id : Nat}
    {method : String} {reply : ρ} :
    (r.extend ps).Holds id method reply ↔ r.Holds id method reply := by
  constructor
  · rintro ⟨p, hm, hi, hme, hr⟩
    rcases List.mem_append.mp hm with hm | hm
    · exact ⟨p, hm, hi, hme, hr⟩
    · rw [hp p hm] at hr
      cases hr
  · rintro ⟨p, hm, hrest⟩
    exact ⟨p, List.mem_append_left _ hm, hrest⟩

theorem Extends.holds {r r' : Rpc ρ} (h : r.Extends r') {id : Nat} {method : String} {reply : ρ} :
    r'.Holds id method reply ↔ r.Holds id method reply := by
  obtain ⟨ps, -, -, hp, rfl⟩ := h
  exact holds_extend hp

theorem holds_next {r : Rpc ρ} {name method : String} {value : Value} {reply : Option ρ} {id : Nat}
    {w : ρ} :
    (r.extend [r.next name value reply]).Holds id method w ↔
      (r.nextId = id ∧ name = method ∧ reply = some w) ∨ r.Holds id method w := by
  simp only [Holds, extend, List.mem_append, List.mem_singleton]
  constructor
  · rintro ⟨p, hp | rfl, hrest⟩
    · exact .inr ⟨p, hp, hrest⟩
    · exact .inl hrest
  · rintro (hrest | ⟨p, hp, hrest⟩)
    · exact ⟨_, .inr rfl, hrest⟩
    · exact ⟨p, .inl hp, hrest⟩

/-- A message keeps its error and its result whatever it answers; it hands on the reply of the
request with its identifier. -/
theorem receive_reply {r r' : Rpc ρ} {text : String} {i : Inbound ρ} (h : Orderly r)
    (hr : r.receive text = .ok (i, r')) {message : Wire.Message}
    (hm : Wire.Message.decoder.parse text = .ok message) :
    i.message.error = message.error ∧ i.message.result = message.result ∧
      (∀ id method reply, message.requestId = some id → r.Holds id method reply →
        i.reply = some reply) ∧
      ∀ reply, i.reply = some reply → ∃ q, i.request = some q ∧ message.requestId = some q.id ∧
        r.Holds q.id q.method reply := by
  unfold receive at hr
  rw [hm] at hr
  simp only at hr
  split at hr
  · rename_i p hp
    obtain ⟨id, hid, hf⟩ := Option.bind_eq_some_iff.mp hp
    obtain ⟨hmem, hpi⟩ := (find?_eq_some h.ordered id p).mp hf
    simp only [Except.ok.injEq, Prod.mk.injEq] at hr
    obtain ⟨rfl, -⟩ := hr
    refine ⟨rfl, rfl, ?_, ?_⟩
    · rintro j method reply hj ⟨q, hq, hqj, -, hqr⟩
      obtain rfl : id = j := by simpa [hid] using hj
      have hfq := (find?_eq_some h.ordered id q).mpr ⟨hq, hqj⟩
      obtain rfl : p = q := by simpa [hf] using hfq
      exact hqr
    · intro reply hreply
      exact ⟨_, rfl, by rw [hid, hpi], p, hmem, rfl, rfl, hreply⟩
  · rename_i hn
    simp only [Except.ok.injEq, Prod.mk.injEq] at hr
    obtain ⟨rfl, -⟩ := hr
    refine ⟨rfl, rfl, ?_, nofun⟩
    rintro id method reply hid ⟨q, hq, hqi, -⟩
    rw [hid, Option.bind_some, (find?_eq_some h.ordered id q).mpr ⟨hq, hqi⟩] at hn
    cases hn

end Rpc

namespace Player

def Mute (_ : Player ρ) (effects : List (Effect ρ)) (_ : Player ρ) : Prop :=
  effects.filterMap Effect.reply? = []

instance : Law (Mute (ρ := ρ)) where
  nothing _ := rfl
  inTurn := by
    intro p q r before after hb ha
    simp only [Mute] at *
    rw [List.filterMap_append, hb, ha, List.append_nil]

theorem mute_emit (e : Event) : Keeps (Mute (ρ := ρ)) (emit e) := by
  intro p
  simp only [Mute, emit]
  split <;> rfl

theorem governs_mute : GovernsAll (Mute (ρ := ρ)) where
  note n := .give fun _ => rfl
  send action params := by
    intro p
    simp only [Player.send, Player.request, Mute]
    split <;> rfl
  update f := .modify fun _ => rfl
  emit e _ _ := mute_emit e
  startPolling now := .modify fun _ => rfl
  stopPolling := .modify fun _ => rfl
  negotiated f _ := .modify fun _ => rfl

theorem mute_fail (error : Value) (i : Inbound ρ) : Keeps Mute (fail error i) :=
  .cons (governs_mute.note _) (.cons (mute_emit _) .nil)

/-- The result comes first, and then the request's own handler. -/
theorem receive_answered {p : Player ρ} {text : String} {i : Inbound ρ} {rpc : Rpc ρ} {r : ρ}
    (hr : p.rpc.receive text = .ok (i, rpc)) (hi : i.reply = some r)
    (he : i.message.error = none) (now : Nat) :
    ∃ q, i.request = some q ∧
      receive now text p =
        let handled := inOrder
          [route now q.method i, onlyIf p.forwards (emit (.message i.message))]
          { p with rpc := rpc }
        (handled.1, .reply r i.message.result :: handled.2) := by
  have hq : ∃ q, i.request = some q ∧ i.message.method = some q.method := by
    unfold Rpc.receive at hr
    split at hr
    · cases hr
    · split at hr
      · simp only [Except.ok.injEq, Prod.mk.injEq] at hr
        obtain ⟨rfl, -⟩ := hr
        exact ⟨_, rfl, rfl⟩
      · simp only [Except.ok.injEq, Prod.mk.injEq] at hr
        obtain ⟨rfl, -⟩ := hr
        cases hi
  obtain ⟨q, hq, hm⟩ := hq
  refine ⟨q, hq, ?_⟩
  simp [receive, hr, dispatch, he, hm, answer, hi, Inbound.strayId, hq, inOrder, Step.andThen,
    Step.modify, forSome, Step.skip]

/-- Without anyone who waits, or with an error, nobody is handed a result. -/
theorem mute_dispatch {i : Inbound ρ} (h : i.reply = none ∨ i.message.error ≠ none) (now : Nat) :
    Keeps Mute (dispatch now i) := by
  intro p
  refine Keeps.cons ?_ (.cons (.onlyIf (mute_emit _) _) .nil) p
  split
  · exact mute_fail _ i
  · rename_i he _
    refine .cons ?_ (.cons (governs_mute.route now _ i) .nil)
    intro q
    have hi : i.reply = none := h.resolve_right fun hn => hn he
    simp [Mute, answer, hi]
  · exact .skip

/-- A message hands its result on unless it has an error; nothing else that arrives hands on
anything. -/
theorem receive_replies (p : Player ρ) (now : Nat) (text : String) :
    (receive now text p).2.filterMap Effect.reply? =
      match p.rpc.receive text with
      | .ok (i, _) =>
        if i.message.error = none then (i.reply.map fun r => (r, i.message.result)).toList else []
      | .error _ => [] := by
  cases hr : p.rpc.receive text with
  | error fault =>
    rw [receive_error hr]
    rfl
  | ok out =>
    obtain ⟨i, rpc⟩ := out
    have hmute (h : i.reply = none ∨ i.message.error ≠ none) :
        (receive now text p).2.filterMap Effect.reply? = [] := by
      rw [receive_eq hr]
      exact Keeps.cons (.forSome (fun id => governs_mute.note _) _)
        (.cons (mute_dispatch h now) .nil) _
    by_cases he : i.message.error = none
    · cases hi : i.reply with
      | none =>
        rw [hmute (.inl hi)]
        simp [hi]
      | some r =>
        obtain ⟨q, -, heq⟩ := receive_answered hr hi he now
        have hrest : Mute { p with rpc := rpc } _ _ :=
          Keeps.cons (governs_mute.route now q.method i)
            (.cons (.onlyIf (mute_emit (.message i.message)) p.forwards) .nil) { p with rpc := rpc }
        simp only [heq, List.filterMap_cons, Effect.reply?]
        rw [hrest]
        simp [he, hi]
    · rw [hmute (.inr he)]
      simp [he]

namespace Moment

def replies (m : Moment ρ) : List (ρ × Option Value) := m.done.effects.filterMap Effect.reply?

/-- A request is sent, under this identifier, and its result is waited for. -/
def Asks (id : Nat) (method : String) (r : ρ) (m : Moment ρ) : Prop :=
  ∃ params, m.input = .request method params (some r) ∧ m.done.id = some id

/-- The socket closes, or a message comes with the identifier. -/
def settles (m : Moment ρ) (id : Nat) : Bool :=
  m.forgets || m.message?.any (·.requestId = some id)

def brings (m : Moment ρ) : Option (Option Value) :=
  m.message?.bind fun message => if message.error = none then some message.result else none

end Moment

section Step

variable {p : Player ρ}

/-- A request that is not sent is waited for by nobody. -/
theorem request_unsent {name : String} {params : Wire.Params} {reply : Option ρ}
    (hs : p.rpc.send name params reply = .ok (none, p.rpc) ∨
      ∃ cause, p.rpc.send name params reply = .error cause) (now : Nat) :
    (p.perform now (.request name params reply)).player = p ∧
      (p.perform now (.request name params reply)).id = none := by
  rcases hs with hs | ⟨cause, hs⟩ <;> simp [perform, request, hs]

/-- A request that is sent is waited for by whoever it was given. -/
theorem request_holds (ho : p.rpc.Orderly) (now : Nat) (name : String) (params : Wire.Params)
    (reply : Option ρ) :
    (p.perform now (.request name params reply)).player.rpc.Orderly ∧
      ∀ id method r, (p.perform now (.request name params reply)).player.rpc.Holds id method r ↔
        Moment.Asks id method r ⟨p, now, .request name params reply⟩ ∨
          p.rpc.Holds id method r := by
  have hunsent (hs : p.rpc.send name params reply = .ok (none, p.rpc) ∨
      ∃ cause, p.rpc.send name params reply = .error cause) :
      (p.perform now (.request name params reply)).player.rpc.Orderly ∧
        ∀ id method r, (p.perform now (.request name params reply)).player.rpc.Holds id method r ↔
          Moment.Asks id method r ⟨p, now, .request name params reply⟩ ∨
            p.rpc.Holds id method r := by
    obtain ⟨hp, hid⟩ := request_unsent hs now
    rw [hp]
    exact ⟨ho, by simp [Moment.Asks, Moment.done, hid]⟩
  cases hv : params.toValue with
  | error fault => exact hunsent (.inr ⟨_, Rpc.send_error hv name reply⟩)
  | ok value =>
    cases hopen : p.rpc.isOpen with
    | false => exact hunsent (.inl (Rpc.send_closed hv hopen name reply))
    | true =>
      have hd : p.perform now (.request name params reply) =
          ⟨{ p with rpc := p.rpc.extend [p.rpc.next name value reply] }, [],
            some p.rpc.nextId⟩ := by
        simp [perform, request, Rpc.send_open hv hopen name reply, Rpc.extend]
      rw [hd]
      refine ⟨ho.extend rfl, ?_⟩
      intro id method r
      rw [Rpc.holds_next]
      simp only [Moment.Asks, Moment.done, hd, Call.request.injEq, Option.some.injEq]
      refine or_congr_left ⟨?_, ?_⟩
      · rintro ⟨hid, hm, hr⟩
        exact ⟨params, ⟨hm, rfl, hr⟩, hid⟩
      · rintro ⟨_, ⟨hm, -, hr⟩, hid⟩
        exact ⟨hid, hm, hr⟩

/-- A message settles the request with its identifier, and what its handler asks for is waited for
by nobody. -/
theorem receive_holds (ho : p.rpc.Orderly) (now : Nat) (text : String) :
    (receive now text p).1.rpc.Orderly ∧
      ∀ id method r, (receive now text p).1.rpc.Holds id method r ↔ p.rpc.Holds id method r ∧
        Moment.settles (⟨p, now, .receive text⟩ : Moment ρ) id = false := by
  cases hr : p.rpc.receive text with
  | error fault =>
    rw [receive_error hr]
    refine ⟨ho, ?_⟩
    simp [Moment.settles, Moment.forgets, Moment.message?, Rpc.receive_error hr, Except.toOption]
  | ok out =>
    obtain ⟨i, rpc⟩ := out
    have he := (receive_ok hr now).rpc
    obtain ⟨message, hm, rfl⟩ := Rpc.receive_ok hr
    refine ⟨(ho.without _).extends he, ?_⟩
    intro id method r
    rw [he.holds, Rpc.holds_without]
    simp [Moment.settles, Moment.forgets, Moment.message?, hm, Except.toOption]

/-- What neither asks nor settles leaves alone what is waited for. -/
theorem holds_of_same {c : Call ρ} {now : Nat} {rpc : Rpc ρ} {id : Nat} {method : String} {r : ρ}
    (ha : ∀ params, c ≠ .request method params (some r))
    (hs : Moment.settles ⟨p, now, c⟩ id = false)
    (h : rpc.Holds id method r ↔ p.rpc.Holds id method r) :
    rpc.Holds id method r ↔ Moment.Asks id method r ⟨p, now, c⟩ ∨
      (p.rpc.Holds id method r ∧ Moment.settles ⟨p, now, c⟩ id = false) := by
  have hn : ¬ Moment.Asks id method r ⟨p, now, c⟩ := by
    rintro ⟨params, hc, -⟩
    exact ha params hc
  simp [hn, hs, h]

/-- One call more starts a request, or settles some, or leaves alone what is waited for. -/
theorem perform_holds (ho : p.rpc.Orderly) (now : Nat) (c : Call ρ) :
    (p.perform now c).player.rpc.Orderly ∧
      ∀ id method r, (p.perform now c).player.rpc.Holds id method r ↔
        Moment.Asks id method r ⟨p, now, c⟩ ∨
          (p.rpc.Holds id method r ∧ Moment.settles ⟨p, now, c⟩ id = false) := by
  cases c with
  | opened =>
    simp only [perform, Done.of, opened_rpc]
    have ho' : (p.rpc.setOpen true).Orderly := ⟨ho.ordered, ho.below⟩
    refine ⟨ho'.extend rfl, fun id method r => holds_of_same (by simp) rfl ?_⟩
    exact Rpc.holds_extend (by simp [Rpc.next])
  | closed =>
    simp only [perform, Done.of, closed_rpc]
    refine ⟨Rpc.orderly_reset _, ?_⟩
    simp [Rpc.Holds, Rpc.reset, Moment.Asks, Moment.settles, Moment.forgets]
  | resetSession =>
    simp only [perform, Done.of, resetSession_eq]
    refine ⟨Rpc.orderly_new, ?_⟩
    simp [Rpc.Holds, Rpc.new, Moment.Asks, Moment.settles, Moment.forgets]
  | request name params reply =>
    simpa [Moment.settles, Moment.forgets, Moment.message?] using
      request_holds ho now name params reply
  | execute command =>
    have he := (asks_execute command p).rpc
    exact ⟨ho.extends he, fun id method r => holds_of_same (by simp) rfl he.holds⟩
  | askPosition =>
    have he := (asks_send .getPosition .null p).rpc
    exact ⟨ho.extends he, fun id method r => holds_of_same (by simp) rfl he.holds⟩
  | tick =>
    have he : (p.perform now .tick).player.rpc = p.rpc := by
      simp only [perform, onlyIf]
      split <;> rfl
    rw [he]
    exact ⟨ho, fun id method r => holds_of_same (by simp) rfl Iff.rfl⟩
  | receive text =>
    obtain ⟨horderly, hholds⟩ := receive_holds ho now text
    refine ⟨horderly, ?_⟩
    intro id method r
    rw [show (p.perform now (.receive text)).player = (receive now text p).1 from rfl, hholds]
    simp [Moment.Asks]
  | drain =>
    exact ⟨⟨ho.ordered, ho.below⟩, fun id method r => holds_of_same (by simp) rfl Iff.rfl⟩

end Step

/-- What is waited for is what was asked and not settled since. -/
structure Tracks (h : List (Moment ρ)) (p : Player ρ) : Prop where
  orderly : p.rpc.Orderly
  holds : ∀ id method r, p.rpc.Holds id method r ↔
    Since (Moment.Asks id method r) (fun m => m.settles id = false) h

theorem tracks_new (pageSize pollInterval : Nat) (forwards : Bool) (observer : Observer) :
    Tracks [] (new (ρ := ρ) pageSize pollInterval forwards observer) where
  orderly := Rpc.orderly_new
  holds id method r := by
    refine ⟨?_, fun h => absurd h History.not_since_nil⟩
    rintro ⟨q, hq, -⟩
    cases hq

theorem Tracks.step {h : List (Moment ρ)} {p : Player ρ} (ht : Tracks h p) (now : Nat)
    (c : Call ρ) : Tracks (h ++ [⟨p, now, c⟩]) (p.perform now c).player where
  orderly := (perform_holds ht.orderly now c).1
  holds id method r := by
    rw [History.since_concat, ← ht.holds]
    exact (perform_holds ht.orderly now c).2 id method r

theorem run_tracks (run : Run ρ) : Tracks run.history run.player :=
  run.induct tracks_new fun _ _ now c ht => ht.step now c

namespace Moment

variable {m : Moment ρ}

theorem replies_receive {p : Player ρ} {now : Nat} {text : String} :
    replies ⟨p, now, .receive text⟩ = (receive now text p).2.filterMap Effect.reply? := rfl

/-- Only a message that arrives hands on anything. -/
theorem replies_of_no_message (hm : m.message? = none) : m.replies = [] := by
  obtain ⟨p, now, c⟩ := m
  cases c with
  | opened =>
    have hmute : Keeps Mute (opened : PlayerStep ρ) :=
      .cons (.modify fun _ => rfl) (.cons (mute_emit _) (.cons (governs_mute.send _ _) .nil))
    exact hmute p
  | closed | resetSession =>
    simp only [replies, done, perform, Done.of, resetSession_eq, closed_eq]
    split <;> rfl
  | request name params reply =>
    simp only [replies, done, perform, request]
    split <;> rfl
  | execute command => exact governs_mute.execute command p
  | askPosition => exact governs_mute.send _ _ p
  | tick =>
    have hmute : Keeps Mute (tick now : PlayerStep ρ) := .modify fun _ => rfl
    exact Keeps.onlyIf hmute _ p
  | receive text =>
    rw [replies_receive, receive_replies]
    cases hr : p.rpc.receive text with
    | error fault => rfl
    | ok out =>
      obtain ⟨i, rpc⟩ := out
      obtain ⟨message, hp, -⟩ := Rpc.receive_ok hr
      simp [message?, hp, Except.toOption] at hm
  | drain => rfl

theorem Asks.no_message {id : Nat} {method : String} {r : ρ} (h : m.Asks id method r) :
    m.message? = none := by
  obtain ⟨params, hc, -⟩ := h
  simp [message?, hc]

theorem brings_of_no_message (hm : m.message? = none) : m.brings = none := by
  simp [brings, hm]

/-- A message that arrives is taken in. -/
theorem receive_of_message {message : Wire.Message} (hm : m.message? = some message) :
    ∃ text i rpc, m.input = .receive text ∧ Wire.Message.decoder.parse text = .ok message ∧
      m.before.rpc.receive text = .ok (i, rpc) := by
  unfold message? at hm
  split at hm
  · rename_i text hc
    have hp : Wire.Message.decoder.parse text = .ok message := by
      cases hp : Wire.Message.decoder.parse text with
      | error fault => simp [hp, Except.toOption] at hm
      | ok message' => simpa [hp, Except.toOption] using hm
    cases hr : m.before.rpc.receive text with
    | error fault => simp [Rpc.receive_error hr] at hp
    | ok out => exact ⟨text, out.1, out.2, hc, hp, hr⟩
  · cases hm

theorem settles_message {message : Wire.Message} (hm : m.message? = some message) (id : Nat) :
    m.settles id = true ↔ message.requestId = some id := by
  obtain ⟨text, i, rpc, hc, -⟩ := receive_of_message hm
  simp [settles, forgets, hc, hm]

/-- A request that is waited for hands on what the message that answers it brings. -/
theorem replies_of_holds (ho : m.before.rpc.Orderly) {id : Nat} {method : String} {r : ρ}
    (hh : m.before.rpc.Holds id method r) (hs : m.settles id = true) :
    m.replies = (m.brings.map fun result => (r, result)).toList := by
  cases hm : m.message? with
  | none => simp [replies_of_no_message hm, brings_of_no_message hm]
  | some message =>
    obtain ⟨text, i, rpc, hc, hp, hr⟩ := receive_of_message hm
    obtain ⟨he, hresult, hreply, -⟩ := Rpc.receive_reply ho hr hp
    have hi := hreply id method r ((settles_message hm id).mp hs) hh
    obtain ⟨p, now, c⟩ := m
    obtain rfl : c = .receive text := hc
    rw [replies_receive, receive_replies, hr]
    simp only [brings, hm, hi, he, hresult, Option.bind_some, Option.map_some]
    split <;> rfl

/-- Whoever is handed something waited for the request that is answered. -/
theorem holds_of_replies (ho : m.before.rpc.Orderly) {r : ρ} {result : Option Value}
    (h : (r, result) ∈ m.replies) : ∃ text i rpc q, m.input = .receive text ∧
      m.before.rpc.receive text = .ok (i, rpc) ∧ i.request = some q ∧ i.reply = some r ∧
      i.message.error = none ∧ i.message.result = result ∧ m.brings = some result ∧
      m.settles q.id = true ∧ m.before.rpc.Holds q.id q.method r := by
  cases hm : m.message? with
  | none => simp [replies_of_no_message hm] at h
  | some message =>
    obtain ⟨text, i, rpc, hc, hp, hr⟩ := receive_of_message hm
    obtain ⟨he, hresult, -, hwho⟩ := Rpc.receive_reply ho hr hp
    have hset := settles_message hm
    obtain ⟨p, now, c⟩ := m
    obtain rfl : c = .receive text := hc
    rw [replies_receive, receive_replies, hr] at h
    simp only at h
    split at h
    · rename_i hnone
      obtain ⟨hi, hv⟩ : i.reply = some r ∧ i.message.result = result := by simpa using h
      obtain ⟨q, hq, hid, hh⟩ := hwho r hi
      refine ⟨text, i, rpc, q, rfl, hr, hq, hi, hnone, hv, ?_, (hset q.id).mpr hid, hh⟩
      simp [brings, hm, ← he, hnone, ← hresult, hv]
    · cases h

end Moment

/-- What the answer to a request brings, if one comes: the first that settles it decides. -/
def answerTo (id : Nat) (after : List (Moment ρ)) : Option (Option Value) :=
  (after.find? (·.settles id)).bind Moment.brings

theorem answerTo_settled {id : Nat} {after : List (Moment ρ)} {y : Moment ρ} (hy : y ∈ after)
    (hs : y.settles id = true) (m : Moment ρ) :
    answerTo id (after ++ [m]) = answerTo id after := by
  have hfound : (after.find? (·.settles id)).isSome := List.find?_isSome.mpr ⟨y, hy, hs⟩
  obtain ⟨z, hz⟩ := Option.isSome_iff_exists.mp hfound
  simp [answerTo, List.find?_append, hz]

theorem answerTo_unsettled {id : Nat} {after : List (Moment ρ)}
    (h : ∀ y ∈ after, y.settles id = false) (m : Moment ρ) :
    answerTo id after = none ∧
      answerTo id (after ++ [m]) = if m.settles id then m.brings else none := by
  have hn : after.find? (·.settles id) = none := by simpa using h
  simp only [answerTo, List.find?_append, hn, List.find?_singleton]
  refine ⟨rfl, ?_⟩
  split <;> rfl

section Handed

variable [DecidableEq ρ] {r : ρ}

namespace Moment

def handedTo (r : ρ) (m : Moment ρ) : List (Option Value) :=
  m.replies.filterMap fun e => if e.1 = r then some e.2 else none

theorem mem_handedTo {m : Moment ρ} {result : Option Value} :
    result ∈ m.handedTo r ↔ (r, result) ∈ m.replies := by
  simp only [handedTo, List.mem_filterMap, Prod.exists]
  constructor
  · rintro ⟨w, v, hm, hw⟩
    split at hw
    · rename_i heq
      obtain rfl : w = r := heq
      obtain rfl : v = result := by simpa using hw
      exact hm
    · cases hw
  · intro hm
    exact ⟨r, result, hm, by simp⟩

/-- Nothing is handed to one who does not wait. -/
theorem handedTo_eq_nil {m : Moment ρ} (ho : m.before.rpc.Orderly)
    (h : ∀ i n, m.before.rpc.Holds i n r → m.settles i = false) : m.handedTo r = [] := by
  refine List.eq_nil_iff_forall_not_mem.mpr ?_
  intro result hm
  obtain ⟨-, -, -, q, -, -, -, -, -, -, -, hs, hh⟩ := holds_of_replies ho (mem_handedTo.mp hm)
  rw [h q.id q.method hh] at hs
  cases hs

theorem handedTo_of_holds {m : Moment ρ} (ho : m.before.rpc.Orderly) {id : Nat} {method : String}
    (hh : m.before.rpc.Holds id method r) (hs : m.settles id = true) :
    m.handedTo r = m.brings.toList := by
  rw [handedTo, replies_of_holds ho hh hs]
  cases m.brings <;> simp

end Moment

def handed (r : ρ) (h : List (Moment ρ)) : List (Option Value) := h.flatMap (·.handedTo r)

theorem handed_concat (h : List (Moment ρ)) (m : Moment ρ) :
    handed r (h ++ [m]) = handed r h ++ m.handedTo r := by
  simp [handed]

def Named (r : ρ) (m : Moment ρ) : Prop := ∃ id method, m.Asks id method r

section Tracked

variable {h : List (Moment ρ)} {p : Player ρ} {now : Nat} {c : Call ρ}

/-- One who was never named is handed nothing. -/
theorem Tracks.handedTo_unnamed (ht : Tracks h p) (hn : ∀ y ∈ h, ¬ Named r y) :
    Moment.handedTo r ⟨p, now, c⟩ = [] := by
  refine Moment.handedTo_eq_nil ht.orderly ?_
  intro i n hh
  obtain ⟨before, y, after, rfl, hy, -⟩ := (ht.holds i n r).mp hh
  exact absurd ⟨i, n, hy⟩ (hn y (by simp))

/-- One who was named once, for this request, is handed what settles it. -/
theorem Tracks.handedTo_named (ht : Tracks h p) {before after : List (Moment ρ)} {x : Moment ρ}
    (hs : h = before ++ x :: after) {id : Nat} {method : String} (hx : x.Asks id method r)
    (hn : ∀ y ∈ before ++ after, ¬ Named r y) :
    (answerTo id after).toList ++ Moment.handedTo r ⟨p, now, c⟩ =
      (answerTo id (after ++ [⟨p, now, c⟩])).toList := by
  have hwaits (i : Nat) (n : String) (hh : p.rpc.Holds i n r) :
      i = id ∧ ∀ y ∈ after, y.settles id = false := by
    obtain ⟨⟨_, -, hi⟩, ha⟩ := ((ht.holds i n r).mp hh).at_place hs fun y hy h => hn y hy ⟨i, n, h⟩
    obtain ⟨_, -, hid⟩ := hx
    obtain rfl : i = id := by simpa [hid] using hi.symm
    exact ⟨rfl, ha⟩
  by_cases hset : ∀ y ∈ after, y.settles id = false
  · obtain ⟨hnone, hlast⟩ := answerTo_unsettled hset (⟨p, now, c⟩ : Moment ρ)
    have hh : p.rpc.Holds id method r := (ht.holds id method r).mpr ⟨before, x, after, hs, hx, hset⟩
    rw [hnone, hlast, Option.toList_none, List.nil_append]
    split
    · rename_i hm
      exact Moment.handedTo_of_holds ht.orderly hh hm
    · rename_i hm
      refine Moment.handedTo_eq_nil ht.orderly ?_
      intro i n hi
      rw [(hwaits i n hi).1]
      simpa using hm
  · obtain ⟨y, hy, hys⟩ : ∃ y ∈ after, y.settles id = true := by simpa using hset
    have hnil : Moment.handedTo r ⟨p, now, c⟩ = [] :=
      Moment.handedTo_eq_nil ht.orderly fun i n hi => absurd (hwaits i n hi).2 hset
    rw [answerTo_settled hy hys, hnil, List.append_nil]

end Tracked

/-- One who was never named is handed nothing, and one who was named once is handed what settles the
request. -/
structure Serves (r : ρ) (h : List (Moment ρ)) (p : Player ρ) : Prop where
  tracks : Tracks h p
  unnamed : (∀ y ∈ h, ¬ Named r y) → handed r h = []
  named : ∀ {before x after id method}, h = before ++ x :: after → x.Asks id method r →
    (∀ y ∈ before ++ after, ¬ Named r y) → handed r h = (answerTo id after).toList

theorem serves_new (r : ρ) (pageSize pollInterval : Nat) (forwards : Bool) (observer : Observer) :
    Serves r [] (new pageSize pollInterval forwards observer) where
  tracks := tracks_new ..
  unnamed _ := rfl
  named hs := by simp at hs

theorem Serves.step {h : List (Moment ρ)} {p : Player ρ} (hserves : Serves r h p) (now : Nat)
    (c : Call ρ) : Serves r (h ++ [⟨p, now, c⟩]) (p.perform now c).player where
  tracks := hserves.tracks.step now c
  unnamed hn := by
    have hold : ∀ y ∈ h, ¬ Named r y := fun y hy => hn y (List.mem_append_left _ hy)
    rw [handed_concat, hserves.unnamed hold, hserves.tracks.handedTo_unnamed hold,
      List.append_nil]
  named := by
    intro before x after id method hs hx hn
    rw [handed_concat]
    rcases History.split_concat hs with ⟨rest, hrest, rfl⟩ | ⟨rfl, rfl, rfl⟩
    · have hold : ∀ y ∈ before ++ rest, ¬ Named r y :=
        fun y hy => hn y (by simp only [List.mem_append] at hy ⊢; tauto)
      rw [hserves.named hrest hx hold, hserves.tracks.handedTo_named hrest hx hold]
    · have hold := hserves.unnamed fun y hy => hn y (by simpa using hy)
      simp [hold, answerTo, Moment.handedTo, Moment.replies_of_no_message hx.no_message]

theorem run_serves (r : ρ) (run : Run ρ) : Serves r run.history run.player :=
  run.induct (serves_new r) fun _ _ now c hserves => hserves.step now c

/-- A continuation given with one request only is handed what the first message with the request's
identifier brings, unless the socket closes before that message or it has an error, and else
nothing. Results are handed on to those who wait for what the message answers, before the handler
of the request's method runs. -/
theorem results_are_handed_on_once (run : Run ρ) :
    (∀ before x after id method r, run.history = before ++ x :: after →
      x.Asks id method r → (∀ y ∈ before ++ after, ¬ Named r y) →
      handed r run.history = (answerTo id after).toList) ∧
    (∀ m : Moment ρ, m.before = run.player → ∀ r result,
      (r, result) ∈ m.replies ↔ m.brings = some result ∧ ∃ id method, m.settles id = true ∧
        Since (Moment.Asks id method r) (fun x => x.settles id = false) run.history) ∧
    (∀ m : Moment ρ, m.before = run.player → ∀ r result,
      (r, result) ∈ m.replies → ∃ text i rpc q, m.input = .receive text ∧
        m.before.rpc.receive text = .ok (i, rpc) ∧ i.request = some q ∧
        Since (Moment.Asks q.id q.method r) (fun x => x.settles q.id = false) run.history ∧
        m.done.effects = .reply r result ::
          (inOrder [route m.now q.method i, onlyIf m.before.forwards (emit (.message i.message))]
            { m.before with rpc := rpc }).2) ∧
    ∀ (m : Moment ρ) message, m.message? = some message →
      message.result ≠ some .null ∧ message.error ≠ some .null := by
  have ht := run_tracks run
  refine ⟨?_, ?_, ?_, ?_⟩
  · intro before x after id method r hs hx hn
    exact (run_serves r run).named hs hx hn
  · intro m hm r result
    rw [← hm] at ht
    constructor
    · intro h
      obtain ⟨-, -, -, q, -, -, -, -, -, -, hb, hset, hh⟩ := Moment.holds_of_replies ht.orderly h
      exact ⟨hb, q.id, q.method, hset, (ht.holds q.id q.method r).mp hh⟩
    · rintro ⟨hb, id, method, hset, hsince⟩
      have hh : m.before.rpc.Holds id method r := (ht.holds id method r).mpr hsince
      rw [Moment.replies_of_holds ht.orderly hh hset, hb]
      simp
  · intro m hm r result h
    rw [← hm] at ht
    obtain ⟨text, i, rpc, q, hc, hr, hq, hi, he, hv, -, -, hh⟩ :=
      Moment.holds_of_replies ht.orderly h
    obtain ⟨q', hq', heffects⟩ := receive_answered hr hi he m.now
    obtain rfl : q = q' := by simpa [hq] using hq'
    have hdone : m.done.effects = (receive m.now text m.before).2 := by
      simp only [Moment.done, hc]
      rfl
    refine ⟨text, i, rpc, q, hc, hr, hq, (ht.holds q.id q.method r).mp hh, ?_⟩
    rw [hdone, heffects, hv]
  · intro m message hmessage
    obtain ⟨text, -, -, -, hp, -⟩ := Moment.receive_of_message hmessage
    obtain ⟨-, hresult, herror, -⟩ := Wire.Message.noNull_of_parse hp
    exact ⟨hresult, herror⟩

end Handed

end Player
end MediaRemote.Session
