import MediaRemote.Proofs.Session.Numbering
import MediaRemote.Proofs.Wire.Requests

namespace MediaRemote.Session.Rpc

open Json (Value Carried)
open Wire (Params Request)

variable {ρ : Type}

def Exchange.request? (e : Exchange ρ) : Option Request :=
  match e.call with
  | .send method params _ =>
    e.answer.id?.bind fun id => params.toValue.toOption.map fun value => .new id method value
  | _ => none

def sentRequests (h : List (Exchange ρ)) : List Request := h.filterMap Exchange.request?

def Answer.taken : Answer ρ → List String
  | .frames taken => taken
  | _ => []

def takenFrames (h : List (Exchange ρ)) : List String := h.flatMap (·.answer.taken)

/-- What waits before these exchanges is dropped by a reset: one comes before any frame is taken. -/
def drops : List (Exchange ρ) → Bool
  | [] => false
  | e :: after =>
    match e.call with
    | .reset => true
    | .drain => false
    | _ => drops after

def delivered : List (Exchange ρ) → List Request
  | [] => []
  | e :: after => (if drops after then [] else e.request?.toList) ++ delivered after

def Dropped (after : List (Exchange ρ)) : Prop :=
  ∃ between e rest, after = between ++ e :: rest ∧ e.call = .reset ∧
    ∀ t ∈ between, t.call ≠ .drain

theorem dropped_cons {e : Exchange ρ} {after : List (Exchange ρ)} :
    Dropped (e :: after) ↔ e.call = .reset ∨ (e.call ≠ .drain ∧ Dropped after) := by
  constructor
  · rintro ⟨between, t, rest, hsplit, hreset, hbetween⟩
    cases between with
    | nil =>
      obtain ⟨rfl, rfl⟩ := List.cons.inj hsplit
      exact .inl hreset
    | cons d between =>
      obtain ⟨rfl, rfl⟩ := List.cons.inj hsplit
      have hrest : ∀ t ∈ between, t.call ≠ .drain := fun t ht => hbetween t (.tail _ ht)
      exact .inr ⟨hbetween e (.head _), between, t, rest, rfl, hreset, hrest⟩
  · rintro (hreset | ⟨hdrain, between, t, rest, rfl, hreset, hbetween⟩)
    · exact ⟨[], e, after, rfl, hreset, by simp⟩
    · exact ⟨e :: between, t, rest, rfl, hreset, by simpa [hdrain] using hbetween⟩

theorem drops_iff (after : List (Exchange ρ)) : drops after = true ↔ Dropped after := by
  induction after with
  | nil => simp [drops, Dropped]
  | cons e after ih =>
    rw [dropped_cons, drops, ← ih]
    split <;> simp_all

theorem delivered_sublist (h : List (Exchange ρ)) : (delivered h).Sublist (sentRequests h) := by
  induction h with
  | nil => exact List.Sublist.refl _
  | cons e after ih =>
    have hhead : (if drops after then [] else e.request?.toList).Sublist e.request?.toList := by
      split
      · exact List.nil_sublist _
      · exact List.Sublist.refl _
    have hsent : sentRequests (e :: after) = e.request?.toList ++ sentRequests after := by
      cases hq : e.request? <;> simp [sentRequests, hq]
    rw [hsent]
    exact hhead.append ih

theorem mem_delivered {h : List (Exchange ρ)} {q : Request} : q ∈ delivered h ↔
    ∃ before e after, h = before ++ e :: after ∧ e.request? = some q ∧ ¬ Dropped after := by
  induction h with
  | nil => simp [delivered]
  | cons e after ih =>
    rw [delivered, List.mem_append, ih]
    constructor
    · rintro (hq | ⟨before, t, rest, rfl, hq, hrest⟩)
      · split at hq
        · cases hq
        · rename_i hdrops
          rw [drops_iff] at hdrops
          exact ⟨[], e, after, rfl, by simpa using hq, hdrops⟩
      · exact ⟨e :: before, t, rest, rfl, hq, hrest⟩
    · rintro ⟨before, t, rest, hsplit, hq, hrest⟩
      cases before with
      | nil =>
        obtain ⟨rfl, rfl⟩ := List.cons.inj hsplit
        rw [← drops_iff] at hrest
        exact .inl (by simp [hrest, hq])
      | cons d before =>
        obtain ⟨rfl, rfl⟩ := List.cons.inj hsplit
        exact .inr ⟨before, t, rest, rfl, hq, hrest⟩

theorem request?_eq_some {e : Exchange ρ} {q : Request} :
    e.request? = some q ↔ ∃ reply, e.Issues ⟨q, reply⟩ := by
  constructor
  · intro hq
    obtain ⟨call, answer⟩ := e
    cases call with
    | send method params reply =>
      obtain ⟨id, hid, hq⟩ := Option.bind_eq_some_iff.mp hq
      obtain ⟨value, hvalue, rfl⟩ := Option.map_eq_some_iff.mp hq
      have htext : params.toValue = .ok value := by
        cases hp : params.toValue with
        | error fault => simp [hp, Except.toOption] at hvalue
        | ok v => simpa [hp, Except.toOption] using hvalue
      obtain rfl : answer = .sent (some id) := by
        cases answer with
        | sent o => rw [show o = some id from hid]
        | _ => cases hid
      exact ⟨reply, method, params, value, rfl, htext, rfl⟩
    | _ => cases hq
  · rintro ⟨reply, method, params, value, rfl, hvalue, hq⟩
    simp only at hq
    simp [Exchange.request?, Answer.id?, hvalue, Except.toOption, ← hq]

theorem Performs.frames {r r' : Rpc ρ} {c : Call ρ} {a : Answer ρ} (h : Performs r c a r')
    (after : List (Exchange ρ)) :
    a.taken ++ ((if drops after then [] else r'.outbox) ++ (delivered after).map encode) =
      (if drops (⟨c, a⟩ :: after) then [] else r.outbox) ++
        (delivered (⟨c, a⟩ :: after)).map encode := by
  cases h with
  | @accept method params value hv ho reply =>
    have hsent : Exchange.request? (ρ := ρ) ⟨.send method params reply, .sent (some r.nextId)⟩ =
        some (r.next method value reply).request := by
      simp [Exchange.request?, Answer.id?, hv, next, Except.toOption]
    have hdrops : drops (⟨.send method params reply, .sent (some r.nextId)⟩ :: after) =
        drops after := rfl
    rw [delivered, hsent, hdrops]
    split <;> simp [Answer.taken]
  | reset => simp [Answer.taken, drops, delivered, Exchange.request?, Rpc.reset]
  | drain => simp [Answer.taken, drops, delivered, Exchange.request?]
  | _ =>
    simp only [Answer.taken, delivered, Exchange.request?, Answer.id?, Option.bind_none,
      Option.toList_none, ite_self, List.nil_append]
    rfl

/-- Identifiers are given out with requests. -/
theorem Performs.request_id {r r' : Rpc ρ} {c : Call ρ} {a : Answer ρ} (h : Performs r c a r') :
    (Exchange.request? ⟨c, a⟩).map (·.id) = a.id? := by
  cases h with
  | accept hv ho reply =>
    simp [Exchange.request?, Answer.id?, hv, Except.toOption, Request.new]
  | _ => rfl

/-- From any state on: what is taken and what waits at the end is what waited before, unless it is
dropped, and what was delivered since. -/
theorem foldl_step_frames (calls : List (Call ρ)) (s : Run ρ) :
    ∃ h, (calls.foldl Run.step s).history = s.history ++ h ∧
      takenFrames h ++ (calls.foldl Run.step s).rpc.outbox =
        (if drops h then [] else s.rpc.outbox) ++ (delivered h).map encode := by
  induction calls generalizing s with
  | nil => exact ⟨[], by simp, by simp [takenFrames, drops, delivered]⟩
  | cons c calls ih =>
    obtain ⟨h, hhistory, hframes⟩ := ih (s.step c)
    refine ⟨⟨c, (s.rpc.perform c).1⟩ :: h, ?_, ?_⟩
    · rw [List.foldl_cons, hhistory]
      simp [Run.step]
    · rw [← (performs s.rpc c).frames h, takenFrames, List.flatMap_cons, List.append_assoc]
      exact congrArg _ hframes

theorem run_frames (calls : List (Call ρ)) :
    takenFrames (run calls).history ++ (run calls).rpc.outbox =
      (delivered (run calls).history).map encode := by
  obtain ⟨h, hhistory, hframes⟩ := foldl_step_frames calls ⟨[], .new⟩
  rw [List.nil_append] at hhistory
  rw [run, hhistory, hframes]
  simp [new]

theorem run_sent_ids (calls : List (Call ρ)) :
    (sentRequests (run calls).history).map (·.id) = List.range (run calls).rpc.nextId := by
  have hissued : (sentRequests (run calls).history).map (·.id) = issued (run calls).history := by
    induction calls using List.reverseRecOn with
    | nil => rfl
    | append_singleton calls c ih =>
      have hid := (performs (run calls).rpc c).request_id
      rw [run_concat, Run.step, issued_concat, ← ih, ← hid]
      cases hq : Exchange.request? ⟨c, ((run calls).rpc.perform c).1⟩ <;> simp [sentRequests, hq]
  rw [hissued, (run_tracks calls).numbered]

/-- Requests that were sent are told apart by their identifiers. -/
theorem sent_unique {calls : List (Call ρ)} {p q : Request}
    (hp : p ∈ sentRequests (run calls).history) (hq : q ∈ sentRequests (run calls).history)
    (hid : p.id = q.id) : p = q := by
  have hn : ((sentRequests (run calls).history).map (·.id)).Nodup := by
    rw [run_sent_ids]
    exact List.nodup_range
  exact List.inj_on_of_nodup_map hn hp hq hid

theorem mem_sentRequests {h : List (Exchange ρ)} {q : Request} :
    q ∈ sentRequests h ↔ ∃ e ∈ h, ∃ reply, e.Issues ⟨q, reply⟩ := by
  simp only [sentRequests, List.mem_filterMap, request?_eq_some]

/-- In flight are only requests that were sent. -/
theorem pending_sent {calls : List (Call ρ)} {p : Pending ρ} (hp : p ∈ (run calls).rpc.pending) :
    p.request ∈ sentRequests (run calls).history := by
  obtain ⟨before, e, after, hsplit, hissues, -⟩ := ((run_tracks calls).inFlight p).mp hp
  exact mem_sentRequests.mpr ⟨e, by simp [hsplit], p.reply, hissues⟩

theorem toValue_sorted {params : Params} {value : Value} (h : params.toValue = .ok value)
    (hv : ∀ v, params = .value v → v.Sorted) : value.Sorted := by
  cases params with
  | none =>
    cases h
    exact .null
  | value w =>
    cases h
    exact hv _ rfl
  | text s => exact Json.parse_sorted h

/-- Structured parameters are values that could have been read. -/
def SendsSorted (calls : List (Call ρ)) : Prop :=
  ∀ method v reply, Call.send method (.value v) reply ∈ calls → v.Sorted

theorem sent_readable {calls : List (Call ρ)} (hcounter : (run calls).rpc.nextId < bound64)
    (hvalues : SendsSorted calls) {q : Request} (hq : q ∈ sentRequests (run calls).history)
    (hdepth : q.params.depth ≤ 126) (hcarried : ∀ x ∈ q.params.doubles, Carried x) :
    q.version = "2.0" ∧ q.Readable := by
  have hid : q.id < (run calls).rpc.nextId := by
    have hmem : q.id ∈ (sentRequests (run calls).history).map (·.id) := List.mem_map_of_mem hq
    rwa [run_sent_ids, List.mem_range] at hmem
  obtain ⟨e, he, reply, method, params, value, rfl, hvalue, hnew⟩ := mem_sentRequests.mp hq
  have hcall : Call.send method params reply ∈ calls := by
    rw [← run_calls calls]
    exact List.mem_map_of_mem he
  simp only at hnew
  refine ⟨by rw [hnew]; rfl, by omega, ?_, hdepth, hcarried⟩
  rw [hnew]
  refine toValue_sorted hvalue fun v hv => hvalues method v reply ?_
  rwa [hv] at hcall

theorem kept_until_settled {calls : List (Call ρ)} {before after : List (Exchange ρ)}
    {e : Exchange ρ} {q : Request} (hsplit : (run calls).history = before ++ e :: after)
    (hq : e.request? = some q) (hsettles : ∀ t ∈ after, ¬ t.Settles q.id) :
    ∃ p, (run calls).rpc.find? q.id = some p := by
  have htracks := run_tracks calls
  obtain ⟨reply, hissues⟩ := request?_eq_some.mp hq
  have hpending : (⟨q, reply⟩ : Pending ρ) ∈ (run calls).rpc.pending :=
    (htracks.inFlight _).mpr ⟨before, e, after, hsplit, hissues, hsettles⟩
  exact ⟨_, (find?_eq_some htracks.ordered q.id _).mpr ⟨hpending, rfl⟩⟩

/-- Parameters that were given as text are sent as the value that the text is. -/
theorem text_sent {calls : List (Call ρ)} {method text : String} {reply : Option ρ} {id : Nat}
    (he : ⟨.send method (.text text) reply, .sent (some id)⟩ ∈ (run calls).history) :
    ∃ v, Json.parse text = .ok v ∧ .new id method v ∈ sentRequests (run calls).history := by
  obtain ⟨before, after, hsplit⟩ := List.append_of_mem he
  have hanswer := (run_tracks calls).answered before method (.text text) reply _ after hsplit
  have hparse : Params.toValue (.text text) = Json.parse text := rfl
  rw [answerTo, hparse] at hanswer
  cases hv : Json.parse text with
  | error fault =>
    rw [hv] at hanswer
    cases hanswer
  | ok v =>
    exact ⟨v, rfl, mem_sentRequests.mpr ⟨_, he, reply, method, .text text, v, rfl, hv, rfl⟩⟩

/-- The frames that were taken, in order, and then those that wait are the encodings of the requests
that were sent, in the order of their identifiers, without the requests that a reset found before
they were taken. Each frame is an object with the four keys of a request, and it is read back as the
request that is kept under its identifier until that is settled, as far as its parameters nest at
most 126 levels and their doubles survive being written and read. Parameters that were given as text
are sent as the value that the text is. -/
theorem frames_are_the_sent_requests (calls : List (Call ρ))
    (hcounter : (run calls).rpc.nextId < bound64) (hvalues : SendsSorted calls) :
    takenFrames (run calls).history ++ (run calls).rpc.outbox =
      (delivered (run calls).history).map encode ∧
    (sentRequests (run calls).history).map (·.id) = List.range (run calls).rpc.nextId ∧
    (delivered (run calls).history).Sublist (sentRequests (run calls).history) ∧
    (∀ q, q ∈ delivered (run calls).history ↔
      ∃ before e after, (run calls).history = before ++ e :: after ∧ e.request? = some q ∧
        ¬ Dropped after) ∧
    (∀ before e after q, (run calls).history = before ++ e :: after → e.request? = some q →
      (∀ t ∈ after, ¬ t.Settles q.id) → ∃ p, (run calls).rpc.find? q.id = some p) ∧
    (∀ q ∈ sentRequests (run calls).history,
      (∀ p, (run calls).rpc.find? q.id = some p → p.request = q) ∧
      (q.params.depth ≤ 126 → (∀ x ∈ q.params.doubles, Carried x) →
        Json.parse (encode q) = .ok (.object
          [("id", .integer q.id), ("jsonrpc", .string "2.0"), ("method", .string q.method),
            ("params", q.params)]) ∧
        Request.decoder.parse (encode q) = .ok q)) ∧
    ∀ method text reply id,
      (⟨.send method (.text text) reply, .sent (some id)⟩ : Exchange ρ) ∈ (run calls).history →
        ∃ v, Json.parse text = .ok v ∧ .new id method v ∈ sentRequests (run calls).history := by
  have htracks := run_tracks calls
  refine ⟨run_frames calls, run_sent_ids calls, delivered_sublist _, fun q => mem_delivered, ?_, ?_,
    ?_⟩
  · exact fun _ _ _ _ => kept_until_settled
  · intro q hq
    refine ⟨?_, ?_⟩
    · intro p hp
      obtain ⟨hpending, hid⟩ := (find?_eq_some htracks.ordered q.id p).mp hp
      exact sent_unique (pending_sent hpending) hq hid
    · intro hdepth hcarried
      obtain ⟨hversion, hreadable⟩ := sent_readable hcounter hvalues hq hdepth hcarried
      refine ⟨?_, hreadable.decoder⟩
      rw [← hversion]
      exact hreadable.parse
  · exact fun _ _ _ _ => text_sent

def half : Binary64 := ⟨false, fullSignificand, 1021, by decide, by decide, .inl (by decide)⟩

def resetBetween : List (Call Unit) :=
  [.setOpen true, .send "first" .none none, .drain,
    .send "dropped" (.value (.array [.bool true])) none, .reset, .setOpen true,
    .send "say \"hi\"\n\u0001"
      (.text "[0.5, \x7b\"b\": -9223372036854775808, \"a\": null\x7d]") none,
    .drain, .send "last" (.value (.object [("max", .integer 18446744073709551615)])) none]

theorem frames_across_a_reset :
    (run resetBetween).rpc.nextId < bound64 ∧ SendsSorted resetBetween ∧
      (delivered (run resetBetween).history).map (·.id) = [0, 2, 3] ∧
      takenFrames (run resetBetween).history ++ (run resetBetween).rpc.outbox =
        (delivered (run resetBetween).history).map encode ∧
      (sentRequests (run resetBetween).history).flatMap (·.params.doubles) = [half] ∧
      ∀ q ∈ sentRequests (run resetBetween).history, Request.decoder.parse (encode q) = .ok q := by
  have hcounter : (run resetBetween).rpc.nextId < bound64 := by decide +kernel
  have hvalues : SendsSorted resetBetween := by
    intro method v reply h
    simp only [resetBetween, List.mem_cons, Call.send.injEq, Params.value.injEq, reduceCtorEq,
      false_or, and_false, false_and, List.not_mem_nil, or_false] at h
    rcases h with ⟨-, rfl, -⟩ | ⟨-, rfl, -⟩
    · exact .array _ (by simpa using .bool true)
    · exact .object _ (List.pairwise_singleton _ _) (by simpa using .integer _ (by decide))
  have hcarried : ∀ q ∈ sentRequests (run resetBetween).history,
      q.params.depth ≤ 126 ∧ ∀ x ∈ q.params.doubles, Carried x := by decide +kernel
  obtain ⟨hframes, -, -, -, -, hread, -⟩ :=
    frames_are_the_sent_requests resetBetween hcounter hvalues
  refine ⟨hcounter, hvalues, by decide +kernel, hframes, by decide +kernel, ?_⟩
  intro q hq
  obtain ⟨hdepth, hdoubles⟩ := hcarried q hq
  exact ((hread q hq).2 hdepth hdoubles).2

end MediaRemote.Session.Rpc
