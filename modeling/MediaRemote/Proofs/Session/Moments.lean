import MediaRemote.Proofs.Session.Deeds

namespace MediaRemote.Session

open Json (Value)
open Wire (Change Position Request)
open Step PlayerStep

variable {ρ : Type}

/-- Told by the way: of the connection, of an error, or of a message as such. -/
def Event.isAside : Event → Bool
  | .connected | .disconnected | .error .. | .message _ => true
  | _ => false

namespace Player

structure Remarks (p : Player ρ) (effects : List (Effect ρ)) (q : Player ρ) : Prop where
  same : q = p
  aside : ∀ e ∈ eventsIn effects, e.isAside = true

instance : Law (Remarks (ρ := ρ)) where
  nothing _ := ⟨rfl, by simp [eventsIn]⟩
  inTurn := by
    intro p q r before after h g
    refine ⟨g.same.trans h.same, ?_⟩
    intro e he
    rw [eventsIn_append] at he
    rcases List.mem_append.mp he with he | he
    · exact h.aside e he
    · exact g.aside e he

theorem remarks_note (n : Notice) : Keeps (Remarks (ρ := ρ)) (note n) :=
  .give fun _ => ⟨rfl, by simp [eventsIn, Effect.event?]⟩

theorem remarks_emit {e : Event} (h : e.isAside = true) : Keeps (Remarks (ρ := ρ)) (emit e) := by
  intro p
  refine ⟨rfl, ?_⟩
  intro x hx
  simp only [emit] at hx
  split at hx
  · obtain rfl : x = e := by simpa [eventsIn, Effect.event?] using hx
    exact h
  · simp [eventsIn] at hx

theorem remarks_answer (i : Inbound ρ) : Keeps Remarks (answer i) := by
  intro p
  refine ⟨rfl, ?_⟩
  cases hi : i.reply <;> simp [answer, hi, eventsIn, Effect.event?]

theorem remarks_fail (error : Value) (i : Inbound ρ) : Keeps Remarks (fail error i) :=
  .cons (remarks_note _) (.cons (remarks_emit rfl) .nil)

structure Doing (p : Player ρ) (d : Deed ρ) (r : Player ρ × List (Effect ρ)) : Prop where
  player : r.1 = (p.act d).1
  told : ∃ before after, eventsIn r.2 = before ++ eventsIn (heard p.observer d.gives) ++ after ∧
    ∀ e ∈ before ++ after, e.isAside = true

theorem doing_act (p : Player ρ) (d : Deed ρ) : Doing p d (p.act d) :=
  ⟨rfl, [], [], by simp [act], by simp⟩

theorem doing_idle {f : PlayerStep ρ} (hf : Keeps Remarks f) (p : Player ρ) :
    Doing p p.idle (f p) := by
  refine ⟨(hf p).same, eventsIn (f p).2, [], ?_, ?_⟩
  · simp [idle, heard, eventsIn]
  · simpa using (hf p).aside

theorem Doing.andThen {p : Player ρ} {d : Deed ρ} {f g : PlayerStep ρ} (hf : Doing p d (f p))
    (hg : Keeps Remarks g) : Doing p d (f.andThen g p) := by
  obtain ⟨hplayer, before, after, htold, haside⟩ := hf
  refine ⟨(hg (f p).1).same.trans hplayer, before, after ++ eventsIn (g (f p).1).2, ?_, ?_⟩
  · rw [show (f.andThen g p).2 = (f p).2 ++ (g (f p).1).2 from rfl, eventsIn_append, htold]
    simp
  · intro e he
    rw [← List.append_assoc] at he
    rcases List.mem_append.mp he with he | he
    · exact haside e he
    · exact (hg (f p).1).aside e he

theorem Doing.after {p : Player ρ} {d : Deed ρ} {f g : PlayerStep ρ} (hf : Keeps Remarks f)
    (hg : Doing p d (g p)) : Doing p d (f.andThen g p) := by
  obtain ⟨hsame, haside⟩ := hf p
  obtain ⟨hplayer, before, after, htold, hrest⟩ := hg
  have hnext : f.andThen g p = ((g p).1, (f p).2 ++ (g p).2) := by
    simp only [Step.andThen, hsame]
  rw [hnext]
  refine ⟨hplayer, eventsIn (f p).2 ++ before, after, ?_, ?_⟩
  · rw [eventsIn_append, htold]
    simp
  · intro e he
    rw [List.append_assoc] at he
    rcases List.mem_append.mp he with he | he
    · exact haside e he
    · exact hrest e he

def contentOf (p : Player ρ) (i : Inbound ρ) : Option Content :=
  if i.message.error = none then
    (i.message.method.bind p.routes.resolve).bind fun slot => i.message.payload.bind slot.read
  else none

def taken (p : Player ρ) (now : Nat) (i : Inbound ρ) : Deed ρ :=
  (p.contentOf i).elim p.idle (p.deed now i.request)

theorem doing_route {p : Player ρ} {i : Inbound ρ} {method : String} (he : i.message.error = none)
    (hm : i.message.method = some method) (now : Nat) :
    Doing p (p.taken now i) (route now method i p) := by
  unfold taken contentOf route
  rw [if_pos he, hm]
  cases hslot : p.routes.resolve method with
  | none =>
    simp only [Option.bind_some, hslot]
    exact doing_idle .skip p
  | some slot =>
    cases hpayload : i.message.payload with
    | none =>
      simp only [Option.bind_some, hslot]
      exact doing_idle .skip p
    | some payload =>
      simp only [Option.bind_some, hslot, invoke_eq]
      cases slot.read payload with
      | none => exact doing_idle (remarks_note (.unusablePayload slot)) p
      | some content => exact doing_act p _

theorem doing_dispatch (p : Player ρ) (now : Nat) (i : Inbound ρ) :
    Doing p (p.taken now i) (dispatch now i p) := by
  have hforward : Keeps (Remarks (ρ := ρ))
      (inOrder [onlyIf p.forwards (emit (.message i.message))]) :=
    .cons (.onlyIf (remarks_emit rfl) _) .nil
  refine Doing.andThen ?_ hforward
  cases he : i.message.error with
  | some error =>
    have htaken : p.taken now i = p.idle := by simp [taken, contentOf, he]
    rw [htaken]
    exact doing_idle (remarks_fail error i) p
  | none =>
    cases hm : i.message.method with
    | some method => exact .after (remarks_answer i) (.andThen (doing_route he hm now) .nil)
    | none =>
      have htaken : p.taken now i = p.idle := by simp [taken, contentOf, hm]
      rw [htaken]
      exact doing_idle .skip p

/-- A message does the deed of its content, once the request that it answers is no longer in
flight. -/
theorem doing_receive {p : Player ρ} {text : String} {i : Inbound ρ} {rpc : Rpc ρ}
    (hr : p.rpc.receive text = .ok (i, rpc)) (now : Nat) :
    Doing { p with rpc := rpc } (taken { p with rpc := rpc } now i) (receive now text p) := by
  rw [receive_eq hr]
  exact .after (.forSome (fun id => remarks_note _) _) (.andThen (doing_dispatch _ now i) .nil)

/-- What is in flight does not matter for what is done. -/
theorem taken_none {p : Player ρ} {i : Inbound ρ} (hc : p.contentOf i = none) (rpc : Rpc ρ)
    (now : Nat) : taken { p with rpc := rpc } now i = idle { p with rpc := rpc } := by
  have hsame : contentOf { p with rpc := rpc } i = none := hc
  rw [taken, hsame, Option.elim_none]

theorem taken_some {p : Player ρ} {i : Inbound ρ} {content : Content}
    (hc : p.contentOf i = some content) (rpc : Rpc ρ) (now : Nat) :
    taken { p with rpc := rpc } now i = p.deed now i.request content := by
  have hsame : contentOf { p with rpc := rpc } i = some content := hc
  rw [taken, hsame]
  cases content <;> rfl

namespace Moment

variable (m : Moment ρ)

def events : List Event := eventsIn m.done.effects

def content? : Option Content := m.inbound?.bind m.before.contentOf

def answered? : Option Request := m.inbound?.bind (·.request)

def deedOf (content : Content) : Deed ρ := m.before.deed m.now m.answered? content

theorem inbound_receive {p : Player ρ} {text : String} {i : Inbound ρ} {rpc : Rpc ρ}
    (hr : p.rpc.receive text = .ok (i, rpc)) (now : Nat) :
    inbound? (⟨p, now, .receive text⟩ : Moment ρ) = some i := by
  simp [inbound?, hr, Except.toOption]

theorem content_receive {p : Player ρ} {text : String} {i : Inbound ρ} {rpc : Rpc ρ}
    (hr : p.rpc.receive text = .ok (i, rpc)) (now : Nat) :
    content? (⟨p, now, .receive text⟩ : Moment ρ) = p.contentOf i := by
  rw [content?, inbound_receive hr, Option.bind_some]

/-- What a call can leave of the cache and the timer, and what it can tell. -/
inductive Course : Cache → Option Nat → List Event → Prop
  | closes (hf : m.forgets = true) : Course
      (if m.before.isConnected then { m.before.cache with state := .disconnected }
        else m.before.cache)
      none
      (if m.before.isConnected ∧ m.before.observer = .live then
        [.stateChanged (some (-1)) .disconnected, .disconnected]
      else [])
  | takes (content) (hc : m.content? = some content) (before after : List Event)
    (ha : ∀ e ∈ before ++ after, e.isAside = true) : Course (m.deedOf content).cache
      (m.deedOf content).timer
      (before ++ eventsIn (heard m.before.observer (m.deedOf content).gives) ++ after)
  | ticks (hi : m.input = .tick) (due : Nat) (ht : m.before.timer = some due) (hd : due ≤ m.now) :
    Course m.before.cache
      (some (if due + tickTolerance < m.now then m.now + m.before.pollInterval
        else due + m.before.pollInterval))
      []
  | rests (hf : m.forgets = false) (hc : m.content? = none) (told : List Event)
    (ha : ∀ e ∈ told, e.isAside = true) : Course m.before.cache m.before.timer told

theorem course_receive (p : Player ρ) (now : Nat) (text : String) :
    Course ⟨p, now, .receive text⟩ (receive now text p).1.cache (receive now text p).1.timer
      (eventsIn (receive now text p).2) := by
  cases hr : p.rpc.receive text with
  | error fault =>
    rw [receive_error hr]
    refine .rests rfl ?_ _ ?_
    · simp [content?, inbound?, hr, Except.toOption]
    · simp [eventsIn, Effect.event?]
  | ok out =>
    obtain ⟨i, rpc⟩ := out
    obtain ⟨hplayer, before, after, htold, haside⟩ := doing_receive hr now
    have hcontent := content_receive hr now
    rw [hplayer, htold]
    cases hc : p.contentOf i with
    | none =>
      rw [taken_none hc]
      refine .rests rfl (hcontent.trans hc) _ ?_
      simpa [idle, heard, eventsIn] using haside
    | some content =>
      have hdeed : deedOf (⟨p, now, .receive text⟩ : Moment ρ) content =
          p.deed now i.request content := by
        rw [deedOf, answered?, inbound_receive hr, Option.bind_some]
      rw [taken_some hc, ← hdeed]
      exact .takes content (hcontent.trans hc) before after haside

/-- A call that only asks leaves cache and timer alone and tells nothing. -/
theorem course_asks {m : Moment ρ} (hf : m.forgets = false) (hc : m.content? = none)
    (h : Player.Asks m.before m.done.effects m.done.player) :
    Course m m.after.cache m.after.timer m.events := by
  have hquiet : m.events = [] := by
    refine List.filterMap_eq_nil_iff.mpr ?_
    intro e he
    cases e with
    | event event => exact absurd rfl (h.silent _ he event)
    | reply | notice => rfl
  have hcache : m.after.cache = m.before.cache := by rw [after, h.same]
  have htimer : m.after.timer = m.before.timer := by rw [after, h.same]
  rw [hquiet, hcache, htimer]
  exact .rests hf hc [] (by simp)

theorem course (m : Moment ρ) : Course m m.after.cache m.after.timer m.events := by
  obtain ⟨p, now, c⟩ := m
  cases c with
  | opened =>
    have htold : events ⟨p, now, .opened⟩ = if p.observer = .live then [.connected] else [] := by
      simp only [events, done, perform, Done.of, opened_eq]
      split <;> rfl
    have hplayer : after ⟨p, now, .opened⟩ = (opened p).1 := rfl
    rw [htold, hplayer, opened_eq]
    refine .rests rfl rfl _ ?_
    intro e he
    split at he
    · obtain rfl := List.mem_singleton.mp he
      rfl
    · cases he
  | closed | resetSession =>
    have htold : eventsIn (closed p).2 = if p.isConnected ∧ p.observer = .live then
        [.stateChanged (some (-1)) .disconnected, .disconnected] else [] := by
      rw [closed_eq]
      by_cases h : p.isConnected ∧ p.observer = .live <;> simp [h, eventsIn, Effect.event?]
    simp only [after, events, done, perform, Done.of, resetSession_eq, htold]
    rw [closed_eq]
    exact .closes rfl
  | request name params reply =>
    have hcalm : Course ⟨p, now, .request name params reply⟩ p.cache p.timer [] :=
      .rests rfl rfl [] (by simp)
    simp only [after, events, done, perform, request]
    split <;> exact hcalm
  | execute command => exact course_asks rfl rfl (asks_execute command p)
  | askPosition => exact course_asks rfl rfl (asks_send _ _ p)
  | tick =>
    simp only [after, events, done, perform, Done.of, onlyIf]
    cases ht : p.timer with
    | none => exact .rests rfl rfl [] (by simp)
    | some due =>
      by_cases hd : due ≤ now
      · simp only [Option.any_some, hd, decide_true, if_true, tick, Step.modify, ht,
          Option.map_some]
        exact .ticks rfl due ht hd
      · simp only [Option.any_some, hd, decide_false, Bool.false_eq_true, if_false, Step.skip]
        exact .rests rfl rfl [] (by simp)
  | receive text => exact course_receive p now text
  | drain => exact .rests rfl rfl [] (by simp)

end Moment

structure SameMake (p q : Player ρ) : Prop where
  pageSize : q.pageSize = p.pageSize
  pollInterval : q.pollInterval = p.pollInterval
  forwards : q.forwards = p.forwards
  observer : q.observer = p.observer

theorem SameMake.trans {p q r : Player ρ} (h : SameMake p q) (g : SameMake q r) : SameMake p r :=
  ⟨g.pageSize.trans h.pageSize, g.pollInterval.trans h.pollInterval, g.forwards.trans h.forwards,
    g.observer.trans h.observer⟩

theorem perform_make (p : Player ρ) (now : Nat) (c : Call ρ) :
    SameMake p (p.perform now c).player := by
  cases c with
  | closed | resetSession =>
    simp only [perform, Done.of, resetSession_eq, closed_eq]
    exact ⟨rfl, rfl, rfl, rfl⟩
  | opened =>
    simp only [perform, Done.of, opened_eq]
    exact ⟨rfl, rfl, rfl, rfl⟩
  | request name params reply =>
    simp only [perform, request]
    split <;> exact ⟨rfl, rfl, rfl, rfl⟩
  | execute command =>
    simp only [perform, Done.of]
    rw [(asks_execute command p).same]
    exact ⟨rfl, rfl, rfl, rfl⟩
  | askPosition =>
    simp only [perform, Done.of, askPosition, send_eq]
    exact ⟨rfl, rfl, rfl, rfl⟩
  | tick =>
    simp only [perform, Done.of, onlyIf]
    split <;> exact ⟨rfl, rfl, rfl, rfl⟩
  | receive text =>
    simp only [perform, Done.of]
    cases hr : p.rpc.receive text with
    | error fault =>
      rw [receive_error hr]
      exact ⟨rfl, rfl, rfl, rfl⟩
    | ok out =>
      rw [(doing_receive hr now).player]
      exact ⟨rfl, rfl, rfl, rfl⟩
  | drain => exact ⟨rfl, rfl, rfl, rfl⟩

theorem run_make (run : Run ρ) : SameMake run.start run.player := by
  obtain ⟨pageSize, pollInterval, forwards, observer, calls⟩ := run
  induction calls using List.reverseRecOn with
  | nil => exact ⟨rfl, rfl, rfl, rfl⟩
  | append_singleton calls c ih =>
    obtain ⟨now, c⟩ := c
    simp only [Run.player, Run.start, History.stateAfter_concat] at ih ⊢
    exact ih.trans (perform_make _ now c)

def toldIn (h : List (Moment ρ)) : List Event := h.flatMap Moment.events

theorem toldIn_concat (h : List (Moment ρ)) (m : Moment ρ) :
    toldIn (h ++ [m]) = toldIn h ++ m.events := by
  simp [toldIn]

end Player
end MediaRemote.Session
