import MediaRemote.Proofs.Session.Ineffective
import MediaRemote.Proofs.Session.Reports
import MediaRemote.Proofs.Session.Resets

namespace MediaRemote.Session

open Json (Value)
open Wire (Message Request)
open Step PlayerStep

variable {ρ : Type}

structure Audience where
  forwards : Bool
  observer : Observer

def Audience.all : Audience := ⟨true, .live⟩

def Event.message? : Event → Option Message
  | .message m => some m
  | _ => none

/-- Whether an effect gets through: results and notices always do. -/
def Effect.getsTo (a : Audience) : Effect ρ → Bool
  | .event e => a.observer = .live && (a.forwards || e.message?.isNone)
  | _ => true

def passing (a : Audience) (effects : List (Effect ρ)) : List (Effect ρ) :=
  effects.filter (·.getsTo a)

theorem passing_append (a : Audience) (before after : List (Effect ρ)) :
    passing a (before ++ after) = passing a before ++ passing a after :=
  List.filter_append ..

def Discreet (effects : List (Effect ρ)) : Prop := ∀ e ∈ eventsIn effects, e.message? = none

/-- Without messages as such it only matters whether anyone listens. -/
theorem passing_heard {a : Audience} {effects : List (Effect ρ)} (h : Discreet effects) :
    passing a effects = heard a.observer effects := by
  apply List.filter_congr
  intro e he
  cases e with
  | event event =>
    have hmem : event ∈ eventsIn effects := List.mem_filterMap.mpr ⟨_, he, rfl⟩
    simp [Effect.getsTo, Effect.reaches, h event hmem]
  | reply | notice => rfl

theorem passing_unheard (a : Audience) (effects : List (Effect ρ)) :
    unheard (passing a effects) = unheard effects := by
  have hgets (e : Effect ρ) : (e.event?.isNone && e.getsTo a) = e.event?.isNone := by
    cases e <;> rfl
  simp only [unheard, passing, List.filter_filter, hgets]

/-- Without forwarding all events but the messages are told. -/
theorem eventsIn_passing_quiet (effects : List (Effect ρ)) :
    eventsIn (passing ⟨false, .live⟩ effects) =
      (eventsIn effects).filter (·.message?.isNone) := by
  induction effects with
  | nil => rfl
  | cons e effects ih =>
    have hsplit := eventsIn_append [e] effects
    have hsplit' := eventsIn_append (passing ⟨false, .live⟩ [e]) (passing ⟨false, .live⟩ effects)
    rw [← passing_append] at hsplit'
    simp only [List.singleton_append] at hsplit hsplit'
    rw [hsplit, hsplit', ih, List.filter_append]
    congr 1
    cases e with
    | event event =>
      cases hm : event.message? <;> simp [passing, Effect.getsTo, hm, eventsIn, Effect.event?]
    | reply | notice => rfl

namespace Player

def facing (p : Player ρ) (a : Audience) : Player ρ :=
  { p with forwards := a.forwards, observer := a.observer }

def audience (p : Player ρ) : Audience := ⟨p.forwards, p.observer⟩

/-- One player is told everything, and the other is the same but for its audience. -/
structure Beside (a : Audience) (p q : Player ρ) : Prop where
  all : p.audience = .all
  other : q = p.facing a

abbrev Unswayed (a : Audience) (f : PlayerStep ρ) : Prop :=
  Matches (Beside a) (fun told heard => heard = passing a told) f

instance (a : Audience) :
    Parallel (fun told heard : List (Effect ρ) => heard = passing a told) where
  nothing := rfl
  inTurn := by
    rintro before _ after _ rfl rfl
    exact (passing_append a before after).symm

variable {a : Audience}

theorem beside_facing (p : Player ρ) (a : Audience) : Beside a (p.facing .all) (p.facing a) :=
  ⟨rfl, rfl⟩

theorem Beside.observer {p q : Player ρ} (h : Beside a p q) : p.observer = .live :=
  congrArg Audience.observer h.all

theorem Beside.forwards {p q : Player ρ} (h : Beside a p q) : p.forwards = true :=
  congrArg Audience.forwards h.all

theorem unswayed_note (n : Notice) : Unswayed a (note n : PlayerStep ρ) := by
  intro p q h
  exact ⟨h, rfl⟩

/-- Of what is heard by someone who listens, others hear what gets through to them. -/
theorem Beside.heard {p q : Player ρ} (h : Beside a p q) {effects : List (Effect ρ)}
    (hd : Discreet effects) :
    heard q.observer effects = passing a (heard p.observer effects) := by
  rw [h.observer, heard_live, passing_heard hd, h.other]
  rfl

theorem unswayed_emit {e : Event} (he : e.message? = none) :
    Unswayed a (emit e : PlayerStep ρ) := by
  intro p q h
  have hdiscreet : Discreet [(.event e : Effect ρ)] := by
    intro x hx
    rwa [List.mem_singleton.mp hx]
  rw [emit_eq, emit_eq]
  exact ⟨h, h.heard hdiscreet⟩

theorem unswayed_answer (i : Inbound ρ) : Unswayed a (answer i) := by
  intro p q h
  refine ⟨h, ?_⟩
  simp only [answer]
  split <;> rfl

/-- What is done about a content does not depend on who is told. -/
theorem deed_facing (p : Player ρ) (now : Nat) (request : Option Request) (content : Content) :
    (p.facing a).deed now request content = p.deed now request content := by
  cases content <;> rfl

theorem discreet_of_eventsIn {effects : List (Effect ρ)} {told : List Event}
    (h : eventsIn effects = told) (ht : ∀ e ∈ told, e.message? = none) : Discreet effects := by
  intro e he
  rw [h] at he
  exact ht e he

theorem changeTold_discreet (p : Player ρ) (c : Wire.Change) :
    ∀ e ∈ p.changeTold c, e.message? = none := by
  intro e he
  simp only [changeTold, List.mem_append, Option.mem_toList,
    Option.map_eq_some_iff] at he
  obtain (((((⟨_, -, rfl⟩ | ⟨_, -, rfl⟩) | ⟨_, -, rfl⟩) | ⟨_, -, rfl⟩) | ⟨_, -, rfl⟩) |
    ⟨_, -, rfl⟩) | ⟨_, -, rfl⟩ := he <;> rfl

/-- No slot tells of a message as such. -/
theorem deed_discreet (p : Player ρ) (now : Nat) (request : Option Request) (content : Content) :
    Discreet (p.deed now request content).gives := by
  have hone {e : Event} (he : e.message? = none) : Discreet [(.event e : Effect ρ)] := by
    intro x hx
    rwa [List.mem_singleton.mp hx]
  have hnone : Discreet ([] : List (Effect ρ)) := nofun
  cases content with
  | capabilities d =>
    refine discreet_of_eventsIn (eventsIn_termsTold d) ?_
    simp [Event.message?]
  | change c => exact discreet_of_eventsIn (eventsIn_map _) (p.changeTold_discreet c)
  | state c =>
    simp only [deed, stateDeed]
    split
    · exact hone rfl
    · exact hnone
  | next c =>
    simp only [deed, nextDeed]
    split
    · exact hone rfl
    · exact hnone
  | position c =>
    simp only [deed, positionDeed]
    split <;> exact hone rfl
  | info c =>
    simp only [deed]
    split
    · exact hone rfl
    · cases c.message <;> exact hnone
  | filter => exact hnone
  | list | options | setInfo | volume => exact hone rfl

theorem taken_discreet (p : Player ρ) (now : Nat) (i : Inbound ρ) :
    Discreet (p.taken now i).gives := by
  unfold taken
  cases p.contentOf i with
  | none => exact nofun
  | some content => exact p.deed_discreet now i.request content

theorem unswayed_invoke (now : Nat) (slot : Slot) (payload : Value) (request : Option Request) :
    Unswayed a (invoke now slot payload request : PlayerStep ρ) := by
  intro p q h
  rw [invoke_eq, invoke_eq]
  cases slot.read payload with
  | none => exact ⟨h, rfl⟩
  | some content =>
    obtain ⟨hall, rfl⟩ := h
    simp only [Option.elim_some, deed_facing]
    exact ⟨⟨hall, rfl⟩, Beside.heard ⟨hall, rfl⟩ (p.deed_discreet now request content)⟩

theorem unswayed_route (now : Nat) (method : String) (i : Inbound ρ) :
    Unswayed a (route now method i) := by
  intro p q h
  have hroutes : q.routes = p.routes := by rw [h.other]; rfl
  simp only [route, hroutes]
  split
  · exact unswayed_invoke now _ _ _ p q h
  · exact ⟨h, rfl⟩

theorem unswayed_fail (error : Value) (i : Inbound ρ) : Unswayed a (fail error i) :=
  .cons (unswayed_note _) (.cons (unswayed_emit rfl) .nil)

def forward (m : Message) : PlayerStep ρ := fun p => onlyIf p.forwards (emit (.message m)) p

theorem unswayed_forward (m : Message) : Unswayed a (forward m : PlayerStep ρ) := by
  intro p q h
  have hp : forward m p = (p, [.event (.message m)]) := by
    simp [forward, h.forwards, onlyIf, emit, h.observer]
  have hq : forward m q = (q, passing a [.event (.message m)]) := by
    obtain ⟨-, rfl⟩ := h
    obtain ⟨forwards, observer⟩ := a
    cases forwards <;> cases observer <;> rfl
  rw [hp, hq]
  exact ⟨h, rfl⟩

def handle (now : Nat) (i : Inbound ρ) : PlayerStep ρ :=
  match i.message.error, i.message.method with
  | some error, _ => fail error i
  | none, some method => inOrder [answer i, route now method i]
  | none, none => skip

theorem unswayed_handle (now : Nat) (i : Inbound ρ) : Unswayed a (handle now i) := by
  unfold handle
  split
  · exact unswayed_fail _ i
  · exact .cons (unswayed_answer i) (.cons (unswayed_route now _ i) .nil)
  · exact .skip

/-- Handling leaves alone whether messages are forwarded, so it may be decided before or after. -/
theorem dispatch_eq {p : Player ρ} {now : Nat} {i : Inbound ρ}
    (hf : (handle now i p).1.forwards = p.forwards) :
    dispatch now i p = inOrder [handle now i, forward i.message] p := by
  simp only [dispatch, inOrder_cons_eq, inOrder_nil_eq, forward, ← hf]
  rfl

theorem unswayed_dispatch (now : Nat) (i : Inbound ρ) : Unswayed a (dispatch now i) := by
  intro p q h
  obtain ⟨hnext, -⟩ := unswayed_handle now i p q h
  have hp : (handle now i p).1.forwards = p.forwards := hnext.forwards.trans h.forwards.symm
  have hq : (handle now i q).1.forwards = q.forwards := by rw [hnext.other, h.other]; rfl
  rw [dispatch_eq hp, dispatch_eq hq]
  exact Matches.cons (unswayed_handle now i) (.cons (unswayed_forward i.message) .nil) p q h

theorem unswayed_receive (now : Nat) (text : String) :
    Unswayed a (receive now text : PlayerStep ρ) := by
  rintro p _ ⟨hall, rfl⟩
  cases hr : p.rpc.receive text with
  | error fault =>
    have hr' : (p.facing a).rpc.receive text = .error fault := hr
    rw [receive_error hr, receive_error hr']
    exact ⟨⟨hall, rfl⟩, rfl⟩
  | ok out =>
    have hr' : (p.facing a).rpc.receive text = .ok out := hr
    rw [receive_eq hr, receive_eq hr']
    exact Matches.cons (.forSome (fun id => unswayed_note _) _)
      (.cons (unswayed_dispatch now out.1) .nil) { p with rpc := out.2 } _ ⟨hall, rfl⟩

/-- What the player changes of itself it changes for every audience. -/
theorem unswayed_modify {f : Player ρ → Player ρ} (ha : ∀ p, (f p).audience = p.audience)
    (hf : ∀ p, f (p.facing a) = (f p).facing a) : Unswayed a (modify f) := by
  rintro p _ ⟨hall, rfl⟩
  exact ⟨⟨(ha p).trans hall, hf p⟩, rfl⟩

theorem unswayed_send (action : Wire.Action) (params : Value) :
    Unswayed a (send action params : PlayerStep ρ) := by
  rintro p _ ⟨hall, rfl⟩
  rw [send_eq, send_eq]
  exact ⟨⟨hall, rfl⟩, rfl⟩

theorem unswayed_opened : Unswayed a (opened : PlayerStep ρ) :=
  .cons (unswayed_modify (fun _ => rfl) fun _ => rfl)
    (.cons (unswayed_emit rfl) (.cons (unswayed_send _ _) .nil))

theorem unswayed_closed : Unswayed a (closed : PlayerStep ρ) := by
  intro p q h
  have hconnected : q.isConnected = p.isConnected := by rw [h.other]; rfl
  simp only [closed, hconnected]
  refine Matches.cons (unswayed_modify ?_ ?_) (.cons (.onlyIf ?_ p.isConnected) .nil) p q h
  · exact fun _ => rfl
  · exact fun _ => rfl
  · exact .cons (unswayed_modify (fun _ => rfl) fun _ => rfl)
      (.cons (unswayed_emit rfl) (.cons (unswayed_emit rfl) .nil))

theorem unswayed_resetSession : Unswayed a (resetSession : PlayerStep ρ) :=
  .cons unswayed_closed (.cons (unswayed_modify (fun _ => rfl) fun _ => rfl) .nil)

theorem unswayed_execute (command : Command) :
    Unswayed a (execute command : PlayerStep ρ) := by
  rintro p _ ⟨hall, rfl⟩
  have hquestion : (p.facing a).question command = p.question command := by
    cases command with
    | about id => cases id <;> rfl
    | _ => rfl
  rw [execute_eq, execute_eq, hquestion]
  refine ⟨⟨hall, rfl⟩, ?_⟩
  cases command <;> rfl

theorem unswayed_tick (now : Nat) :
    Unswayed a (fun p : Player ρ => onlyIf (p.timer.any (· ≤ now)) (tick now) p) := by
  intro p q h
  have htimer : q.timer = p.timer := by rw [h.other]; rfl
  have htick : Unswayed a (tick now : PlayerStep ρ) := unswayed_modify (fun _ => rfl) fun _ => rfl
  simp only [htimer]
  exact htick.onlyIf _ p q h

/-- A call gives back and leaves the same for every audience. -/
theorem perform_beside {p q : Player ρ} (h : Beside a p q) (now : Nat) (c : Call ρ) :
    Beside a (p.perform now c).player (q.perform now c).player ∧
      (q.perform now c).effects = passing a (p.perform now c).effects ∧
      (q.perform now c).id = (p.perform now c).id := by
  have hof {f : PlayerStep ρ} (hf : Unswayed a f) :
      Beside a (Done.of (f p)).player (Done.of (f q)).player ∧
        (Done.of (f q)).effects = passing a (Done.of (f p)).effects ∧
        (Done.of (f q)).id = (Done.of (f p)).id :=
    ⟨(hf p q h).1, (hf p q h).2, rfl⟩
  cases c with
  | opened => exact hof unswayed_opened
  | closed => exact hof unswayed_closed
  | resetSession => exact hof unswayed_resetSession
  | request method params reply =>
    obtain ⟨hall, rfl⟩ := h
    have hrpc : (p.facing a).rpc = p.rpc := rfl
    simp only [perform, request, hrpc]
    split <;> exact ⟨⟨hall, rfl⟩, rfl, rfl⟩
  | execute command => exact hof (unswayed_execute command)
  | askPosition => exact hof (unswayed_send _ _)
  | tick =>
    have htick := hof (unswayed_tick now)
    exact htick
  | receive text => exact hof (unswayed_receive now text)
  | drain =>
    obtain ⟨hall, rfl⟩ := h
    exact ⟨⟨hall, rfl⟩, rfl, rfl⟩

namespace Moment

/-- Two players have the same frames to be taken, get the same call at the same time, and give back,
hand on and note the same; and then they agree on everything but their audience. -/
structure Agrees (m n : Moment ρ) : Prop where
  frames : n.before.drain.1 = m.before.drain.1
  now : n.now = m.now
  input : n.input = m.input
  id : n.done.id = m.done.id
  effects : unheard n.done.effects = unheard m.done.effects
  rpc : n.after.rpc = m.after.rpc
  routes : n.after.routes = m.after.routes
  capabilities : n.after.capabilities = m.after.capabilities
  cache : n.after.cache = m.after.cache
  timer : n.after.timer = m.after.timer

theorem agrees_facing (p : Player ρ) (a b : Audience) (now : Nat) (c : Call ρ) :
    Agrees ⟨p.facing a, now, c⟩ ⟨p.facing b, now, c⟩ := by
  obtain ⟨⟨-, hplayer⟩, heffects, hid⟩ := perform_beside (beside_facing p a) now c
  obtain ⟨⟨-, hplayer'⟩, heffects', hid'⟩ := perform_beside (beside_facing p b) now c
  constructor
  case frames | now | input => rfl
  case id => exact hid'.trans hid.symm
  case effects =>
    simp only [done, heffects, heffects', passing_unheard]
  all_goals
    simp only [after, done, hplayer, hplayer']
    rfl

/-- The message that arrives, as it is told: with the method of the request in flight that it
answers, if it answers one. -/
def reported? (m : Moment ρ) : Option Message :=
  m.message?.map fun message =>
    { message with
      method := ((message.requestId.bind m.before.rpc.find?).map (·.request.method)).or
        message.method }

theorem correlated_reported (r : Rpc ρ) (message : Message) :
    (r.correlated message).message =
      { message with
        method :=
          ((message.requestId.bind r.find?).map (·.request.method)).or message.method } := by
  unfold Rpc.correlated
  cases message.requestId.bind r.find? <;> rfl

/-- Nothing but a text makes a player tell of a message as such. -/
theorem events_of_no_message {m : Moment ρ} (hm : m.message? = none) :
    ∀ e ∈ m.events, e.message? = none := by
  obtain ⟨p, now, c⟩ := m
  have hquiet (h : events ⟨p, now, c⟩ = []) : ∀ e ∈ events ⟨p, now, c⟩, e.message? = none := by
    simp [h]
  cases c with
  | opened =>
    simp only [events, done, perform, Done.of, opened_eq]
    split <;> simp [eventsIn, Effect.event?, Event.message?]
  | closed | resetSession =>
    simp only [events, done, perform, Done.of, resetSession_eq, closed_eq]
    split <;> simp [eventsIn, Effect.event?, Event.message?]
  | request method params reply =>
    apply hquiet
    simp only [events, done, perform, request]
    split <;> rfl
  | execute command =>
    apply hquiet
    simp only [events, done, perform, Done.of, execute_eq]
    cases Notice.ofCommand? command <;> rfl
  | askPosition =>
    apply hquiet
    simp only [events, done, perform, Done.of, askPosition, send_eq]
    rfl
  | tick =>
    apply hquiet
    simp only [events, done, perform, Done.of, onlyIf]
    split <;> rfl
  | receive text =>
    apply hquiet
    cases hr : p.rpc.receive text with
    | error fault =>
      simp only [events, done, perform, Done.of, receive_error hr]
      rfl
    | ok out =>
      obtain ⟨message, hp, -⟩ := Rpc.receive_ok hr
      simp [message?, hp, Except.toOption] at hm
  | drain => exact hquiet rfl

/-- One who is told everything is told of the message last. -/
theorem events_reported {m : Moment ρ} (ha : m.before.audience = .all) :
    ∃ told, m.events = told ++ (m.reported?.map .message).toList ∧
      ∀ e ∈ told, e.message? = none := by
  cases hm : m.message? with
  | none =>
    refine ⟨m.events, ?_, events_of_no_message hm⟩
    simp [reported?, hm]
  | some message =>
    obtain ⟨text, -, -, hinput, hp, -⟩ := receive_of_message hm
    obtain ⟨p, now, c⟩ := m
    obtain rfl : c = .receive text := hinput
    have hr := p.rpc.receive_correlated hp
    have hreported : reported? ⟨p, now, .receive text⟩ =
        some (p.rpc.correlated message).message := by
      rw [reported?, hm, correlated_reported]
      rfl
    have hforwarded : p.forwarded (p.rpc.correlated message) =
        [.message (p.rpc.correlated message).message] :=
      if_pos (congrArg Audience.forwards ha)
    have hlive : p.observer = .live := congrArg Audience.observer ha
    have hevents := receive_events hr now
    rw [if_pos hlive] at hevents
    refine ⟨_, hevents.trans (congrArg _ ?_), ?_⟩
    · rw [hreported]
      exact hforwarded
    · intro e he
      rcases List.mem_append.mp he with he | he
      · obtain ⟨error, -, rfl⟩ := Option.map_eq_some_iff.mp (Option.mem_toList.mp he)
        rfl
      · exact taken_discreet _ now _ e he

/-- Beyond what one player tells, the other tells of the message that arrives, if one does, and last
of all. -/
structure TellsMore (m n : Moment ρ) : Prop where
  events : m.events = n.events ++ (m.reported?.map .message).toList
  others : ∀ e ∈ n.events, e.message? = none

/-- Without the message, which comes last, the rest is left. -/
theorem others_of_told {told : List Event} (h : ∀ e ∈ told, e.message? = none)
    (reported : Option Message) :
    (told ++ (reported.map Event.message).toList).filter (·.message?.isNone) = told ∧
      (told ++ (reported.map Event.message).toList).filterMap Event.message? = reported.toList := by
  have hkept : told.filter (·.message?.isNone) = told :=
    List.filter_eq_self.mpr fun e he => by rw [h e he]; rfl
  have hgone : told.filterMap Event.message? = [] := List.filterMap_eq_nil_iff.mpr h
  rw [List.filter_append, List.filterMap_append, hkept, hgone]
  cases reported <;> simp [Event.message?]

theorem tellsMore_facing (p : Player ρ) (now : Nat) (c : Call ρ) :
    TellsMore ⟨p.facing .all, now, c⟩ ⟨p.facing ⟨false, .live⟩, now, c⟩ := by
  obtain ⟨-, heffects, -⟩ := perform_beside (beside_facing p ⟨false, .live⟩) now c
  obtain ⟨told, htold, hothers⟩ := events_reported (m := ⟨p.facing .all, now, c⟩) rfl
  have hless : events ⟨p.facing ⟨false, .live⟩, now, c⟩ = told := by
    have hquiet : events ⟨p.facing ⟨false, .live⟩, now, c⟩ =
        (events ⟨p.facing .all, now, c⟩).filter (·.message?.isNone) := by
      simp only [events, done, heffects, eventsIn_passing_quiet]
    rw [hquiet, htold, (others_of_told hothers _).1]
  exact ⟨hless ▸ htold, hless ▸ hothers⟩

end Moment

theorem told_more {h k : List (Moment ρ)} (hmore : List.Forall₂ Moment.TellsMore h k) :
    (toldIn h).filter (·.message?.isNone) = toldIn k ∧
      (toldIn h).filterMap Event.message? = h.filterMap Moment.reported? := by
  induction hmore with
  | nil => exact ⟨rfl, rfl⟩
  | @cons m n h k hfirst _ ih =>
    obtain ⟨hothers, hmessages⟩ := Moment.others_of_told hfirst.others m.reported?
    rw [← hfirst.events] at hothers hmessages
    have hh : toldIn (m :: h) = m.events ++ toldIn h := rfl
    have hk : toldIn (n :: k) = n.events ++ toldIn k := rfl
    have hreported : (m :: h).filterMap Moment.reported? =
        m.reported?.toList ++ h.filterMap Moment.reported? := by
      cases hr : m.reported? <;> simp [hr]
    rw [hh, hk, List.filter_append, List.filterMap_append, hothers, hmessages, ih.1, ih.2,
      hreported]
    exact ⟨rfl, rfl⟩

def attended : Player ρ → List (Audience × Nat × Call ρ) → List (Moment ρ)
  | _, [] => []
  | p, (a, now, c) :: rest =>
    let m : Moment ρ := ⟨p.facing a, now, c⟩
    m :: attended m.after rest

theorem attended_facing (p : Player ρ) (a : Audience) (calls : List (Audience × Nat × Call ρ)) :
    attended (p.facing a) calls = attended p calls := by
  cases calls <;> rfl

/-- What holds of every two moments that differ in the audience alone holds of two runs. -/
theorem attended_forall₂ {R : Moment ρ → Moment ρ → Prop}
    (calls : List ((Audience × Audience) × Nat × Call ρ))
    (hR : ∀ c ∈ calls, ∀ p : Player ρ,
      R ⟨p.facing c.1.1, c.2.1, c.2.2⟩ ⟨p.facing c.1.2, c.2.1, c.2.2⟩) {p q : Player ρ}
    (h : p.facing .all = q.facing .all) :
    List.Forall₂ R (attended p (calls.map fun c => (c.1.1, c.2)))
      (attended q (calls.map fun c => (c.1.2, c.2))) := by
  induction calls generalizing p q with
  | nil => exact .nil
  | cons call calls ih =>
    obtain ⟨⟨a, b⟩, now, c⟩ := call
    obtain ⟨hfirst, hrest⟩ := List.forall_mem_cons.mp hR
    have hq : q.facing b = p.facing b := congrArg (·.facing b) h.symm
    obtain ⟨⟨-, hplayer⟩, -, -⟩ := perform_beside (beside_facing p a) now c
    obtain ⟨⟨-, hplayer'⟩, -, -⟩ := perform_beside (beside_facing p b) now c
    simp only [List.map_cons, attended, hq]
    refine .cons (hfirst p) (ih hrest ?_)
    simp only [Moment.after, Moment.done, hplayer, hplayer']
    rfl

/-- The history of a run is that with the same audience at each call. -/
theorem moments_attended (p : Player ρ) (a : Audience) (calls : List (Nat × Call ρ)) :
    History.moments (fun now c p => (perform now p c).player) (p.facing a) calls =
      attended p (calls.map fun c => (a, c)) := by
  induction calls generalizing p with
  | nil => rfl
  | cons call calls ih =>
    obtain ⟨⟨-, hplayer⟩, -, -⟩ := perform_beside (beside_facing p a) call.1 call.2
    simp only [List.map_cons, attended, History.moments, Moment.after, Moment.done, hplayer]
    exact congrArg _ ((ih _).trans (attended_facing _ a _).symm)

def Run.before (run : Run ρ) (a : Audience) : Run ρ :=
  { run with forwards := a.forwards, observer := a.observer }

theorem history_before (run : Run ρ) (a : Audience) :
    (run.before a).history = attended run.start (run.calls.map fun c => (a, c)) :=
  moments_attended run.start a run.calls

theorem histories_forall₂ {R : Moment ρ → Moment ρ → Prop} {a b : Audience}
    (hR : ∀ (p : Player ρ) now c, R ⟨p.facing a, now, c⟩ ⟨p.facing b, now, c⟩) (run : Run ρ) :
    List.Forall₂ R (run.before a).history (run.before b).history := by
  have hboth := attended_forall₂ (R := R) (run.calls.map fun c => ((a, b), c)) (p := run.start)
    (q := run.start) ?_ rfl
  · rw [List.map_map, List.map_map] at hboth
    rw [history_before, history_before]
    exact hboth
  · intro c hc p
    obtain ⟨call, -, rfl⟩ := List.mem_map.mp hc
    exact hR p call.1 call.2

/-- Who is told, and of what, changes nothing but that: whether messages are forwarded and whether
anyone listens, for a whole run or at each call anew, two players have the same requests in flight,
frames, cache, capabilities, routes and timer after every call, give back the same identifiers and
hand on the same results. One who listens and to whom messages are forwarded is told what one who
only listens is told, and beyond that of each text that is a message, once, after all else that the
text leads to, with the method of the request that it answers. -/
theorem listeners_change_only_what_is_told (run : Run ρ) :
    (∀ a b, List.Forall₂ Moment.Agrees (run.before a).history (run.before b).history) ∧
    (∀ (p : Player ρ) (calls : List ((Audience × Audience) × Nat × Call ρ)),
      List.Forall₂ Moment.Agrees (attended p (calls.map fun c => (c.1.1, c.2)))
        (attended p (calls.map fun c => (c.1.2, c.2)))) ∧
    (toldIn (run.before ⟨true, .live⟩).history).filter (·.message?.isNone) =
      toldIn (run.before ⟨false, .live⟩).history ∧
    (toldIn (run.before ⟨true, .live⟩).history).filterMap Event.message? =
      (run.before ⟨true, .live⟩).history.filterMap Moment.reported? ∧
    List.Forall₂ Moment.TellsMore (run.before ⟨true, .live⟩).history
      (run.before ⟨false, .live⟩).history := by
  have hmore : List.Forall₂ Moment.TellsMore (run.before .all).history
      (run.before ⟨false, .live⟩).history := histories_forall₂ Moment.tellsMore_facing run
  obtain ⟨hothers, hmessages⟩ := told_more hmore
  refine ⟨?_, ?_, hothers, hmessages, hmore⟩
  · intro a b
    exact histories_forall₂ (fun p now c => Moment.agrees_facing p a b now c) run
  · intro p calls
    exact attended_forall₂ calls (fun c _ p => Moment.agrees_facing p c.1.1 c.1.2 c.2.1 c.2.2) rfl

end Player
end MediaRemote.Session
