import MediaRemote.Proofs.Session.Continuations
import MediaRemote.Proofs.Session.Moments

namespace MediaRemote.Session

open Json (Value)
open Wire (Message)
open Step PlayerStep

variable {ρ : Type}

namespace Rpc

def correlated (r : Rpc ρ) (m : Message) : Inbound ρ :=
  match m.requestId.bind r.find? with
  | some p => ⟨{ m with method := some p.request.method }, some p.request, p.reply⟩
  | none => ⟨m, none, none⟩

theorem receive_correlated (r : Rpc ρ) {text : String} {m : Message}
    (hm : Message.decoder.parse text = .ok m) :
    r.receive text = .ok (r.correlated m, r.without m.requestId) := by
  cases hr : r.receive text with
  | error fault => simp [receive_error hr] at hm
  | ok out =>
    obtain ⟨i, r'⟩ := out
    obtain ⟨m', hm', rfl⟩ := receive_ok hr
    obtain rfl : m' = m := by simpa [hm'] using hm
    have hi : i = r.correlated m' := by
      unfold receive at hr
      rw [hm] at hr
      unfold correlated
      cases hf : m'.requestId.bind r.find? with
      | none =>
        simp only [hf, Except.ok.injEq, Prod.mk.injEq] at hr
        exact hr.1.symm
      | some p =>
        simp only [hf, Except.ok.injEq, Prod.mk.injEq] at hr
        exact hr.1.symm
    rw [hi]

/-- A message keeps its error and its result, whatever it answers. -/
theorem correlated_message (r : Rpc ρ) (m : Message) :
    (r.correlated m).message.error = m.error ∧ (r.correlated m).message.result = m.result := by
  unfold correlated
  cases m.requestId.bind r.find? <;> exact ⟨rfl, rfl⟩

/-- The identifier is that of the request that is answered, and of no other. -/
theorem correlated_request {r : Rpc ρ} (ho : r.Orderly) {m : Message} {p : Pending ρ}
    (hp : p ∈ r.pending) :
    (r.correlated m).request = some p.request ↔ m.requestId = some p.request.id := by
  unfold correlated
  cases hf : m.requestId.bind r.find? with
  | none =>
    simp only [reduceCtorEq, false_iff]
    intro hid
    rw [hid, Option.bind_some, (find?_eq_some ho.ordered _ p).mpr ⟨hp, rfl⟩] at hf
    cases hf
  | some q =>
    obtain ⟨id, hid, hq⟩ := Option.bind_eq_some_iff.mp hf
    obtain ⟨hmem, rfl⟩ := (find?_eq_some ho.ordered id q).mp hq
    simp only [Option.some.injEq, hid]
    constructor
    · intro h
      rw [h]
    · intro h
      have hp' := (find?_eq_some ho.ordered q.request.id p).mpr ⟨hp, h.symm⟩
      obtain rfl : q = p := by simpa [hq] using hp'
      rfl

end Rpc

namespace Player

def errorTold (i : Inbound ρ) : List Event := (i.message.error.map (.error · i.request)).toList

def forwarded (p : Player ρ) (i : Inbound ρ) : List Event :=
  if p.forwards then [.message i.message] else []

/-- Events are told while someone listens. -/
theorem eventsIn_emit (e : Event) (p : Player ρ) :
    eventsIn (emit e p).2 = if p.observer = .live then [e] else [] := by
  rw [emit_eq, eventsIn_heard]
  rfl

theorem forward_events (p q : Player ρ) (hq : q.observer = p.observer) (i : Inbound ρ) :
    eventsIn (inOrder [onlyIf p.forwards (emit (.message i.message))] q).2 =
      if p.observer = .live then p.forwarded i else [] := by
  unfold forwarded
  cases p.forwards with
  | false => simp [onlyIf, inOrder, Step.andThen, Step.skip, eventsIn]
  | true =>
    rw [inOrder_cons_eq, inOrder_nil_eq, List.append_nil, ← hq]
    exact eventsIn_emit _ q

theorem fail_events (error : Value) (i : Inbound ρ) (p : Player ρ) :
    eventsIn (fail error i p).2 =
      if p.observer = .live then [.error error i.request] else [] := by
  have hnote (n : Notice) : eventsIn (note n p).2 = [] := rfl
  rw [fail, inOrder_cons_eq, eventsIn_append, hnote, List.nil_append, inOrder_cons_eq,
    inOrder_nil_eq, List.append_nil]
  exact eventsIn_emit _ p

/-- The slot of the method tells what its deed gives. -/
theorem route_events {p : Player ρ} {i : Inbound ρ} {method : String}
    (he : i.message.error = none) (hm : i.message.method = some method) (now : Nat) :
    eventsIn (route now method i p).2 = eventsIn (heard p.observer (p.taken now i).gives) := by
  have hidle : eventsIn (heard p.observer p.idle.gives) = [] := rfl
  unfold taken contentOf route
  rw [if_pos he, hm, Option.bind_some]
  cases p.routes.resolve method with
  | none => exact hidle.symm
  | some slot =>
    cases i.message.payload with
    | none => exact hidle.symm
    | some payload =>
      simp only [Option.bind_some, invoke_eq]
      cases slot.read payload with
      | none => exact hidle.symm
      | some content => rfl

/-- The error is told, or what is taken in, and then the message itself. -/
theorem dispatch_events (p : Player ρ) (now : Nat) (i : Inbound ρ) :
    eventsIn (dispatch now i p).2 =
      if p.observer = .live then
        errorTold i ++ eventsIn (p.taken now i).gives ++ p.forwarded i
      else [] := by
  have hsplit (f : PlayerStep ρ) (told : List Event) (hf : (f p).1.observer = p.observer)
      (htold : eventsIn (f p).2 = if p.observer = .live then told else []) :
      eventsIn (inOrder [f, onlyIf p.forwards (emit (.message i.message))] p).2 =
        if p.observer = .live then told ++ p.forwarded i else [] := by
    rw [inOrder_cons_eq, eventsIn_append, htold, forward_events p _ hf]
    split <;> rfl
  have hidle : eventsIn p.idle.gives = [] := rfl
  unfold dispatch
  cases he : i.message.error with
  | some error =>
    have htaken : p.taken now i = p.idle := by simp [taken, contentOf, he]
    have htold : errorTold i = [.error error i.request] := by simp [errorTold, he]
    rw [htaken, hidle, List.append_nil, htold]
    exact hsplit (fail error i) _ rfl (fail_events error i p)
  | none =>
    have hnone : errorTold i = [] := by simp [errorTold, he]
    rw [hnone, List.nil_append]
    cases hm : i.message.method with
    | none =>
      have htaken : p.taken now i = p.idle := by simp [taken, contentOf, hm]
      rw [htaken, hidle]
      exact hsplit skip [] rfl (by split <;> rfl)
    | some method =>
      have hroute : (route now method i p).1.observer = p.observer := by
        rw [(doing_route he hm now).player]
        rfl
      have hanswer : eventsIn (answer i p).2 = [] := by
        cases hi : i.reply <;> simp [answer, hi, eventsIn, Effect.event?]
      apply hsplit (inOrder [answer i, route now method i]) _ hroute
      rw [inOrder_cons_eq, eventsIn_append, hanswer, List.nil_append, inOrder_cons_eq,
        inOrder_nil_eq, List.append_nil, ← eventsIn_heard]
      exact route_events he hm now

theorem receive_events {p : Player ρ} {text : String} {i : Inbound ρ} {rpc : Rpc ρ}
    (hr : p.rpc.receive text = .ok (i, rpc)) (now : Nat) :
    eventsIn (receive now text p).2 =
      if p.observer = .live then
        errorTold i ++ eventsIn (taken { p with rpc := rpc } now i).gives ++ p.forwarded i
      else [] := by
  have hstray (id : Option Value) (q : Player ρ) :
      forSome id (fun id => note (.strayResponse id)) q =
        (q, (id.map fun id => .notice (.strayResponse id)).toList) := by
    cases id <;> rfl
  have hquiet (id : Option Value) :
      eventsIn (id.map fun id => (.notice (.strayResponse id) : Effect ρ)).toList = [] := by
    cases id <;> rfl
  rw [receive_eq hr, inOrder_cons_eq, hstray, eventsIn_append, hquiet, List.nil_append,
    inOrder_cons_eq, inOrder_nil_eq, List.append_nil]
  exact dispatch_events _ now i

/-- Each of the ways in which a message can be of no use to a player. -/
inductive Useless (p : Player ρ) (i : Inbound ρ) : Prop
  | error (e : Value) (he : i.message.error = some e)
  | unnamed (hm : i.message.method = none)
  | unrouted (method : String) (hm : i.message.method = some method)
    (hs : p.routes.resolve method = none)
  | empty (hp : i.message.payload = none)
  | unusable (method : String) (slot : Slot) (payload : Value)
    (hm : i.message.method = some method) (hs : p.routes.resolve method = some slot)
    (hp : i.message.payload = some payload) (hu : slot.read payload = none)

/-- There is no other way. -/
theorem contentOf_eq_none {p : Player ρ} {i : Inbound ρ} :
    p.contentOf i = none ↔ p.Useless i := by
  constructor
  · intro h
    cases he : i.message.error with
    | some e => exact .error e he
    | none =>
      cases hm : i.message.method with
      | none => exact .unnamed hm
      | some method =>
        cases hs : p.routes.resolve method with
        | none => exact .unrouted method hm hs
        | some slot =>
          cases hp : i.message.payload with
          | none => exact .empty hp
          | some payload =>
            apply Useless.unusable method slot payload hm hs hp
            simpa [contentOf, he, hm, hs, hp] using h
  · rintro (⟨e, he⟩ | hm | ⟨method, hm, hs⟩ | hp | ⟨method, slot, payload, hm, hs, hp, hu⟩)
    · simp [contentOf, he]
    · simp [contentOf, hm]
    · simp [contentOf, hm, hs]
    · simp [contentOf, hp]
    · simp [contentOf, hm, hs, hp, hu]

/-- A frame that is no message changes nothing and is only noted. A message that reports an error,
or has no method, or one without a slot, or brings nothing, or nothing that its slot can use,
changes nothing but that the request it answers is no longer in flight. Told are the error that it
reports, with that request, and the message itself if messages are forwarded; a result is handed on
only without an error. -/
theorem useless_frames_change_nothing (run : Run ρ) (now : Nat) (text : String) :
    (∀ fault, Message.decoder.parse text = .error fault →
      receive now text run.player = (run.player, [.notice (.malformedMessage fault)])) ∧
    ∀ message, Message.decoder.parse text = .ok message →
      message.error ≠ some .null ∧
      ∀ i, i = run.player.rpc.correlated message → run.player.Useless i →
        (receive now text run.player).1 =
          { run.player with rpc := run.player.rpc.without message.requestId } ∧
        (∀ p, p ∈ (receive now text run.player).1.rpc.pending ↔
          p ∈ run.player.rpc.pending ∧ i.request ≠ some p.request) ∧
        eventsIn (receive now text run.player).2 =
          (if run.observer = .live then
            (message.error.map (.error · i.request)).toList ++
              if run.forwards then [.message i.message] else []
          else []) ∧
        (receive now text run.player).2.filterMap Effect.reply? =
          if message.error = none then (i.reply.map fun r => (r, message.result)).toList
          else [] := by
  constructor
  · intro fault hfault
    cases hr : run.player.rpc.receive text with
    | error fault' =>
      obtain rfl : fault' = fault := by simpa [Rpc.receive_error hr] using hfault
      exact receive_error hr now
    | ok out =>
      obtain ⟨i, rpc⟩ := out
      obtain ⟨message, hm, -⟩ := Rpc.receive_ok hr
      rw [hm] at hfault
      cases hfault
  · intro message hm
    refine ⟨(Message.noNull_of_parse hm).2.2.1, ?_⟩
    rintro i rfl hi
    have hr := run.player.rpc.receive_correlated hm
    have hc := contentOf_eq_none.mpr hi
    have hsame := Rpc.correlated_message run.player.rpc message
    have hplayer : (receive now text run.player).1 =
        { run.player with rpc := run.player.rpc.without message.requestId } := by
      rw [(doing_receive hr now).player, taken_none hc]
      rfl
    refine ⟨hplayer, ?_, ?_, ?_⟩
    · intro p
      rw [hplayer, Rpc.mem_without]
      apply and_congr_right
      intro hp
      apply not_congr
      exact (Rpc.correlated_request (run_tracks run).orderly hp).symm
    · rw [receive_events hr, taken_none hc, (run_make run).observer, errorTold, forwarded,
        (run_make run).forwards, hsame.1]
      simp [idle, eventsIn]
      rfl
    · rw [receive_replies, hr]
      simp only [hsame]

def askingAgain : Run Unit :=
  ⟨5, 1000, false, .live,
    [(0, .opened),
     (1, .receive <| Value.text <| .object
       [("id", .integer 0),
        ("result", .object [("actions", .array [.object [("method", .string "list")]])])]),
     (2, .execute .load)]⟩

def noDescriptor : String :=
  Value.text <| .object [("id", .integer 1), ("result", .object [("actions", .string "none")])]

/-- What was negotiated stays in force. -/
theorem unusable_descriptor_keeps_terms :
    askingAgain.player.capabilities.contains .list = true ∧
      askingAgain.player.rpc.pending.length = 1 ∧
      (receive 3 noDescriptor askingAgain.player).1 =
        { askingAgain.player with rpc := askingAgain.player.rpc.without (some 1) } ∧
      (receive 3 noDescriptor askingAgain.player).1.rpc.pending = [] := by
  have hparse : ((Message.decoder.parse noDescriptor).toOption.bind (·.requestId)) = some 1 := by
    decide +kernel
  have hcontent :
      (Moment.content? ⟨askingAgain.player, 3, .receive noDescriptor⟩).isNone = true := by
    decide +kernel
  obtain ⟨message, hm, hid⟩ := Option.bind_eq_some_iff.mp hparse
  have hok : Message.decoder.parse noDescriptor = .ok message := by
    cases hp : Message.decoder.parse noDescriptor <;> simp_all [Except.toOption]
  have hr := askingAgain.player.rpc.receive_correlated hok
  have hu : askingAgain.player.Useless (askingAgain.player.rpc.correlated message) := by
    rw [← contentOf_eq_none, ← Moment.content_receive hr 3]
    simpa using hcontent
  obtain ⟨-, hfrom⟩ :=
    (useless_frames_change_nothing askingAgain 3 noDescriptor).2 message hok
  obtain ⟨hplayer, -⟩ := hfrom _ rfl hu
  rw [hid] at hplayer
  refine ⟨by decide +kernel, by decide +kernel, hplayer, ?_⟩
  rw [← List.length_eq_zero_iff]
  decide +kernel

end Player
end MediaRemote.Session
