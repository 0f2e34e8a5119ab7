import MediaRemote.Proofs.Histories
import MediaRemote.Session.Rpc

namespace MediaRemote.Session.Rpc

open Wire (Message Params Request)

variable {ρ : Type}

inductive Call (ρ : Type)
  | setOpen (isOpen : Bool)
  | reset
  | send (method : String) (params : Params) (reply : Option ρ)
  | receive (text : String)
  | drain

inductive Answer (ρ : Type)
  | nothing
  | sent (id : Option Nat)
  | refused (cause : InvalidParams)
  | received (i : Inbound ρ)
  | dropped (fault : Json.Fault)
  | frames (taken : List String)

def Call.isSend : Call ρ → Bool
  | .send .. => true
  | _ => false

def Answer.id? : Answer ρ → Option Nat
  | .sent id => id
  | _ => none

/-- Performs a call; a send that is refused and a frame that is dropped leave the requests as they
are. -/
def perform (r : Rpc ρ) : Call ρ → Answer ρ × Rpc ρ
  | .setOpen isOpen => (.nothing, r.setOpen isOpen)
  | .reset => (.nothing, r.reset)
  | .send method params reply =>
    match r.send method params reply with
    | .ok (id, r) => (.sent id, r)
    | .error cause => (.refused cause, r)
  | .receive text =>
    match r.receive text with
    | .ok (i, r) => (.received i, r)
    | .error fault => (.dropped fault, r)
  | .drain => (.frames r.drain.1, r.drain.2)

structure Exchange (ρ : Type) where
  call : Call ρ
  answer : Answer ρ

structure Run (ρ : Type) where
  /-- Oldest first. -/
  history : List (Exchange ρ)
  rpc : Rpc ρ

def Run.step (s : Run ρ) (c : Call ρ) : Run ρ :=
  ⟨s.history ++ [⟨c, (s.rpc.perform c).1⟩], (s.rpc.perform c).2⟩

def run (calls : List (Call ρ)) : Run ρ := calls.foldl Run.step ⟨[], .new⟩

theorem run_concat (calls : List (Call ρ)) (c : Call ρ) :
    run (calls ++ [c]) = (run calls).step c := by
  simp [run]

def issued (h : List (Exchange ρ)) : List Nat := h.filterMap (·.answer.id?)

def Exchange.opens (e : Exchange ρ) (isOpen : Bool) : Bool :=
  match e.call with
  | .setOpen isOpen => isOpen
  | .reset => false
  | _ => isOpen

/-- Requests start closed, are opened and closed when told so, and are closed by a reset. -/
def openAfter (h : List (Exchange ρ)) : Bool := h.foldl (fun isOpen e => e.opens isOpen) false

def answerTo (h : List (Exchange ρ)) (method : String) (params : Params) : Answer ρ :=
  match params.toValue with
  | .error fault => .refused ⟨method, fault⟩
  | .ok _ => .sent (if openAfter h then some (issued h).length else none)

def Exchange.Issues (e : Exchange ρ) (p : Pending ρ) : Prop :=
  ∃ method params value, e = ⟨.send method params p.reply, .sent (some p.request.id)⟩ ∧
    params.toValue = .ok value ∧ p.request = .new p.request.id method value

/-- A reset, or a frame that is a message with this identifier. -/
def Exchange.Settles (e : Exchange ρ) (id : Nat) : Prop :=
  e.call = .reset ∨ ∃ text message, e.call = .receive text ∧
    Message.decoder.parse text = .ok message ∧ message.requestId = some id

def Awaits (h : List (Exchange ρ)) (p : Pending ρ) : Prop :=
  ∃ before e after, h = before ++ e :: after ∧ e.Issues p ∧
    ∀ t ∈ after, ¬ t.Settles p.request.id

theorem issued_concat (h : List (Exchange ρ)) (e : Exchange ρ) :
    issued (h ++ [e]) = issued h ++ e.answer.id?.toList := by
  cases hi : e.answer.id? <;> simp [issued, hi]

theorem openAfter_concat (h : List (Exchange ρ)) (e : Exchange ρ) :
    openAfter (h ++ [e]) = e.opens (openAfter h) := by
  simp [openAfter]

/-- One exchange more starts a request, or settles some, or leaves what is in flight alone. -/
theorem awaits_concat (h : List (Exchange ρ)) (e : Exchange ρ) (p : Pending ρ) :
    Awaits (h ++ [e]) p ↔ e.Issues p ∨ (Awaits h p ∧ ¬ e.Settles p.request.id) :=
  History.since_concat

def next (r : Rpc ρ) (method : String) (value : Json.Value) (reply : Option ρ) : Pending ρ :=
  ⟨.new r.nextId method value, reply⟩

theorem send_error {r : Rpc ρ} {params : Params} {fault : Json.Fault}
    (hv : params.toValue = .error fault) (method : String) (reply : Option ρ) :
    r.send method params reply = .error ⟨method, fault⟩ := by
  simp [send, hv]

theorem send_closed {r : Rpc ρ} {params : Params} {value : Json.Value}
    (hv : params.toValue = .ok value) (ho : r.isOpen = false) (method : String)
    (reply : Option ρ) : r.send method params reply = .ok (none, r) := by
  simp [send, hv, ho]

theorem send_open {r : Rpc ρ} {params : Params} {value : Json.Value}
    (hv : params.toValue = .ok value) (ho : r.isOpen = true) (method : String)
    (reply : Option ρ) :
    r.send method params reply = .ok (some r.nextId,
      { r with
        nextId := r.nextId + 1
        pending := r.pending ++ [r.next method value reply]
        outbox := r.outbox ++ [encode (r.next method value reply).request] }) := by
  simp [send, hv, ho, next]

def without (r : Rpc ρ) (answered : Option Nat) : Rpc ρ :=
  { r with pending := r.pending.filter fun p => answered != some p.request.id }

theorem mem_without {r : Rpc ρ} {answered : Option Nat} {p : Pending ρ} :
    p ∈ (r.without answered).pending ↔ p ∈ r.pending ∧ answered ≠ some p.request.id := by
  simp [without]

theorem without_of_absent {r : Rpc ρ} {answered : Option Nat}
    (ha : ∀ p ∈ r.pending, answered ≠ some p.request.id) : r.without answered = r := by
  have : r.pending.filter (fun p => answered != some p.request.id) = r.pending :=
    List.filter_eq_self.mpr fun p hp => by simpa using ha p hp
  simp [without, this]

theorem discard_eq_without (r : Rpc ρ) (id : Nat) : r.discard id = r.without (some id) := by
  have hp : ∀ p : Pending ρ, (p.request.id != id) = (some id != some p.request.id) := by
    intro p
    simp [bne, Bool.beq_comm]
  simp [discard, without, hp]

/-- A frame that is a message takes the request with its identifier out of those in flight. -/
theorem receive_ok {r r' : Rpc ρ} {text : String} {i : Inbound ρ}
    (hr : r.receive text = .ok (i, r')) :
    ∃ message, Message.decoder.parse text = .ok message ∧ r' = r.without message.requestId := by
  unfold receive at hr
  split at hr
  · cases hr
  · rename_i message hm
    refine ⟨message, hm, ?_⟩
    split at hr
    · rename_i q hq
      obtain ⟨id, hid, hf⟩ := Option.bind_eq_some_iff.mp hq
      have hqi : q.request.id = id := by simpa using List.find?_some hf
      simp only [Except.ok.injEq, Prod.mk.injEq] at hr
      rw [← hr.2, hqi, hid, discard_eq_without]
    · rename_i hn
      simp only [Except.ok.injEq, Prod.mk.injEq] at hr
      rw [← hr.2]
      refine (without_of_absent ?_).symm
      intro p hp hid
      rw [hid, Option.bind_some] at hn
      exact List.find?_eq_none.mp hn p hp (by simp)

/-- What a message answers was in flight, with the number that the message gives. -/
theorem receive_request {r r' : Rpc ρ} {text : String} {i : Inbound ρ} {q : Request}
    (hr : r.receive text = .ok (i, r')) (hq : i.request = some q) :
    (∃ p ∈ r.pending, p.request = q) ∧
      ∃ message, Message.decoder.parse text = .ok message ∧ message.requestId = some q.id := by
  unfold receive at hr
  split at hr
  · cases hr
  · rename_i message hm
    split at hr
    · rename_i p hp
      obtain ⟨id, hid, hf⟩ := Option.bind_eq_some_iff.mp hp
      have hpi : p.request.id = id := by simpa using List.find?_some hf
      simp only [Except.ok.injEq, Prod.mk.injEq] at hr
      obtain ⟨rfl, -⟩ := hr
      obtain rfl : p.request = q := by simpa using hq
      exact ⟨⟨p, List.mem_of_find?_eq_some hf, rfl⟩, message, hm, by rw [hid, hpi]⟩
    · simp only [Except.ok.injEq, Prod.mk.injEq] at hr
      obtain ⟨rfl, -⟩ := hr
      cases hq

theorem receive_error {r : Rpc ρ} {text : String} {fault : Json.Fault}
    (hr : r.receive text = .error fault) : Message.decoder.parse text = .error fault := by
  unfold receive at hr
  split at hr
  · rename_i hm
    rw [hm]
    simpa using hr
  · split at hr <;> cases hr

inductive Performs (r : Rpc ρ) : Call ρ → Answer ρ → Rpc ρ → Prop
  | setOpen (isOpen) : Performs r (.setOpen isOpen) .nothing (r.setOpen isOpen)
  | reset : Performs r .reset .nothing r.reset
  | refuse {method params fault} (hv : params.toValue = .error fault) (reply) :
    Performs r (.send method params reply) (.refused ⟨method, fault⟩) r
  | ignore {method params value} (hv : params.toValue = .ok value) (ho : r.isOpen = false)
    (reply) : Performs r (.send method params reply) (.sent none) r
  | accept {method params value} (hv : params.toValue = .ok value) (ho : r.isOpen = true)
    (reply) :
    Performs r (.send method params reply) (.sent (some r.nextId))
      { r with
        nextId := r.nextId + 1
        pending := r.pending ++ [r.next method value reply]
        outbox := r.outbox ++ [encode (r.next method value reply).request] }
  | receive {text message} (hm : Message.decoder.parse text = .ok message) (i) :
    Performs r (.receive text) (.received i) (r.without message.requestId)
  | drop {text fault} (hm : Message.decoder.parse text = .error fault) :
    Performs r (.receive text) (.dropped fault) r
  | drain : Performs r .drain (.frames r.outbox) { r with outbox := [] }

theorem performs (r : Rpc ρ) (c : Call ρ) : Performs r c (r.perform c).1 (r.perform c).2 := by
  cases c with
  | setOpen isOpen => exact .setOpen isOpen
  | reset => exact .reset
  | drain => exact .drain
  | send method params reply =>
    cases hv : params.toValue with
    | error fault =>
      simp only [perform, send_error hv]
      exact .refuse hv reply
    | ok value =>
      cases ho : r.isOpen with
      | false =>
        simp only [perform, send_closed hv ho]
        exact .ignore hv ho reply
      | true =>
        simp only [perform, send_open hv ho]
        exact .accept hv ho reply
  | receive text =>
    cases hr : r.receive text with
    | error fault =>
      simp only [perform, hr]
      exact .drop (receive_error hr)
    | ok out =>
      obtain ⟨i, r'⟩ := out
      obtain ⟨message, hm, rfl⟩ := receive_ok hr
      simp only [perform, hr]
      exact .receive hm i

section Performs

variable {r r' : Rpc ρ} {c : Call ρ} {a : Answer ρ}

/-- Only an accepted send gives out an identifier, and always the next one. -/
theorem Performs.nextId (h : Performs r c a r') :
    (a.id? = none ∧ r'.nextId = r.nextId) ∨
      (a.id? = some r.nextId ∧ r'.nextId = r.nextId + 1 ∧ c.isSend = true) := by
  cases h with
  | accept => exact .inr ⟨rfl, rfl, rfl⟩
  | _ => exact .inl ⟨rfl, rfl⟩

theorem Performs.isOpen (h : Performs r c a r') :
    r'.isOpen = Exchange.opens ⟨c, a⟩ r.isOpen := by
  cases h <;> rfl

/-- In flight after a call is what the call issues, and what was in flight unless it settles it. -/
theorem Performs.mem_pending (h : Performs r c a r') (p : Pending ρ) :
    p ∈ r'.pending ↔ Exchange.Issues ⟨c, a⟩ p ∨
      (p ∈ r.pending ∧ ¬ Exchange.Settles ⟨c, a⟩ p.request.id) := by
  cases h with
  | @accept method params value hv ho reply =>
    -- the only request that an accepted send can have issued is the next one
    have hi : Exchange.Issues ⟨.send method params reply, .sent (some r.nextId)⟩ p ↔
        p = r.next method value reply := by
      constructor
      · rintro ⟨m, ps, v, he, hps, hq⟩
        simp only [Exchange.mk.injEq, Call.send.injEq, Answer.sent.injEq,
          Option.some.injEq] at he
        obtain ⟨⟨rfl, rfl, hreply⟩, hid⟩ := he
        obtain rfl : value = v := by simpa [hv] using hps
        cases p with
        | mk request preply =>
          simp only at hq hreply hid
          rw [next, hq, ← hid, hreply]
      · rintro rfl
        exact ⟨method, params, value, rfl, hv, rfl⟩
    simp only [List.mem_append, List.mem_singleton, hi]
    simp [Exchange.Settles, or_comm]
  | receive hm i => simp [Exchange.Issues, Exchange.Settles, hm, mem_without]
  | drop hm => simp [Exchange.Issues, Exchange.Settles, hm]
  | reset => simp [Rpc.reset, Exchange.Issues, Exchange.Settles]
  | _ => simp [Rpc.setOpen, Exchange.Issues, Exchange.Settles]

/-- A call takes requests out of those in flight, or adds the next one at the end. -/
theorem Performs.pending (h : Performs r c a r') :
    (r'.pending.Sublist r.pending ∧ r.nextId ≤ r'.nextId) ∨
      ∃ p : Pending ρ, p.request.id = r.nextId ∧ r'.nextId = r.nextId + 1 ∧
        r'.pending = r.pending ++ [p] := by
  cases h with
  | accept => exact .inr ⟨_, rfl, rfl, rfl⟩
  | reset => exact .inl ⟨List.nil_sublist _, Nat.le_refl _⟩
  | receive => exact .inl ⟨List.filter_sublist, Nat.le_refl _⟩
  | _ => exact .inl ⟨List.Sublist.refl _, Nat.le_refl _⟩

end Performs

structure Run.Tracks (s : Run ρ) : Prop where
  answered : ∀ before method params reply answer after,
    s.history = before ++ ⟨.send method params reply, answer⟩ :: after →
      answer = answerTo before method params
  numbered : issued s.history = List.range s.rpc.nextId
  openness : s.rpc.isOpen = openAfter s.history
  inFlight : ∀ p, p ∈ s.rpc.pending ↔ Awaits s.history p
  ordered : (s.rpc.pending.map (·.request.id)).Pairwise (· < ·)
  below : ∀ p ∈ s.rpc.pending, p.request.id < s.rpc.nextId

theorem tracks_new : Run.Tracks (⟨[], .new⟩ : Run ρ) where
  answered := by simp
  numbered := rfl
  openness := rfl
  inFlight := by simp [Awaits, new]
  ordered := List.Pairwise.nil
  below := by simp [new]

theorem Run.Tracks.answer {s : Run ρ} (h : s.Tracks) (method : String) (params : Params)
    (reply : Option ρ) :
    (s.rpc.perform (.send method params reply)).1 = answerTo s.history method params := by
  have hl : (issued s.history).length = s.rpc.nextId := by rw [h.numbered, List.length_range]
  cases hv : params.toValue with
  | error fault => simp [perform, send_error hv, answerTo, hv]
  | ok value =>
    cases ho : s.rpc.isOpen with
    | false => simp [perform, send_closed hv ho, answerTo, hv, ← h.openness, ho]
    | true => simp [perform, send_open hv ho, answerTo, hv, ← h.openness, ho, hl]

theorem Run.Tracks.step {s : Run ρ} (h : s.Tracks) (c : Call ρ) : (s.step c).Tracks := by
  have hp := performs s.rpc c
  constructor
  case answered =>
    intro before method params reply answer after hs
    rcases History.split_concat hs with ⟨rest, hold, -⟩ | ⟨rfl, he, -⟩
    · exact h.answered before method params reply answer rest hold
    · simp only [Exchange.mk.injEq] at he
      obtain ⟨rfl, rfl⟩ := he
      exact h.answer method params reply
  case numbered =>
    rw [Run.step, issued_concat, h.numbered]
    rcases hp.nextId with ⟨hi, hn⟩ | ⟨hi, hn, -⟩
    · simp [hi, hn]
    · simp [hi, hn, List.range_succ]
  case openness => rw [Run.step, openAfter_concat, hp.isOpen, h.openness]
  case inFlight =>
    intro p
    rw [Run.step, awaits_concat, hp.mem_pending, h.inFlight]
  case ordered =>
    rcases hp.pending with ⟨hsub, -⟩ | ⟨p, hid, -, he⟩
    · exact h.ordered.sublist (hsub.map _)
    · simp only [Run.step, he, List.map_append, List.pairwise_append]
      refine ⟨h.ordered, by simp, ?_⟩
      intro i hi j hj
      obtain ⟨q, hq, rfl⟩ := List.mem_map.mp hi
      have := h.below q hq
      simp only [List.map_cons, List.map_nil, List.mem_singleton] at hj
      omega
  case below =>
    intro q hq
    simp only [Run.step] at hq ⊢
    rcases hp.pending with ⟨hsub, hle⟩ | ⟨p, hid, hn, he⟩
    · exact Nat.lt_of_lt_of_le (h.below q (hsub.subset hq)) hle
    · rw [he, List.mem_append, List.mem_singleton] at hq
      rcases hq with hq | rfl
      · have := h.below q hq
        omega
      · omega

theorem run_tracks (calls : List (Call ρ)) : (run calls).Tracks := by
  induction calls using List.reverseRecOn with
  | nil => exact tracks_new
  | append_singleton calls c ih =>
    rw [run_concat]
    exact ih.step c

theorem run_calls (calls : List (Call ρ)) : (run calls).history.map (·.call) = calls := by
  induction calls using List.reverseRecOn with
  | nil => rfl
  | append_singleton calls c ih => simp [run_concat, Run.step, ih]

theorem nextId_le_sends (calls : List (Call ρ)) :
    (run calls).rpc.nextId ≤ calls.countP Call.isSend := by
  induction calls using List.reverseRecOn with
  | nil => exact Nat.le_refl 0
  | append_singleton calls c ih =>
    rw [run_concat, List.countP_append]
    rcases (performs (run calls).rpc c).nextId with ⟨-, hn⟩ | ⟨-, hn, hc⟩
    · simp only [Run.step, hn]
      omega
    · simp only [Run.step, hn, List.countP_singleton, hc, if_true]
      omega

/-- Identifiers are unique, so looking one up finds the request that has it. -/
theorem find?_eq_some {r : Rpc ρ} (ho : (r.pending.map (·.request.id)).Pairwise (· < ·))
    (id : Nat) (p : Pending ρ) :
    r.find? id = some p ↔ p ∈ r.pending ∧ p.request.id = id := by
  constructor
  · intro hf
    exact ⟨List.mem_of_find?_eq_some hf, by simpa using List.find?_some hf⟩
  · rintro ⟨hp, rfl⟩
    cases hf : r.find? p.request.id with
    | none => exact absurd (List.find?_eq_none.mp hf p hp) (by simp)
    | some q =>
      have hq : q.request.id = p.request.id := by simpa using List.find?_some hf
      have hn : (r.pending.map (·.request.id)).Nodup := ho.imp Nat.ne_of_lt
      rw [List.inj_on_of_nodup_map hn (List.mem_of_find?_eq_some hf) hp hq]

/-- Accepted sends, and nothing else, take the identifiers 0, 1, 2, … in turn. A send is accepted if
its parameters can be read while the requests are open. In flight are exactly the requests that were
sent and that nothing has settled since, each under its own identifier. There are no more
identifiers than sends, so 64 bits hold them while there are fewer than 2^64 sends. -/
theorem numbered_and_in_flight (calls : List (Call ρ)) :
    (run calls).history.map (·.call) = calls ∧
    (∀ before method params reply answer after,
      (run calls).history = before ++ ⟨.send method params reply, answer⟩ :: after →
        answer = answerTo before method params) ∧
    issued (run calls).history = List.range (run calls).rpc.nextId ∧
    (issued (run calls).history).Nodup ∧
    (run calls).rpc.nextId ≤ calls.countP Call.isSend ∧
    ((run calls).rpc.pending.map (·.request.id)).Pairwise (· < ·) ∧
    (∀ p ∈ (run calls).rpc.pending, p.request.id < (run calls).rpc.nextId) ∧
    (∀ p, p ∈ (run calls).rpc.pending ↔ Awaits (run calls).history p) ∧
    ∀ id p, (run calls).rpc.find? id = some p ↔
      Awaits (run calls).history p ∧ p.request.id = id := by
  have h := run_tracks calls
  refine ⟨run_calls calls, h.answered, h.numbered, ?_, nextId_le_sends calls, h.ordered, h.below,
    h.inFlight, ?_⟩
  · rw [h.numbered]
    exact List.nodup_range
  · intro id p
    rw [find?_eq_some h.ordered, h.inFlight]

end MediaRemote.Session.Rpc
