import MediaRemote.Proofs.Client.Happenings
import MediaRemote.Proofs.Session.Commands
import MediaRemote.Proofs.Session.Continuations
import MediaRemote.Proofs.Session.FollowUps

namespace MediaRemote.Session.Player

open Client (issuedFrom issuedFrom_below issuedFrom_extend)
open History (Since)
open Json (Value)
open Wire (Action Request)
open Step

variable {ρ : Type}

namespace Moment

variable (m : Moment ρ)

def queued : List Request := issuedFrom m.before.rpc.nextId m.after.rpc

def framesLeft : List String :=
  match m.input with
  | .drain | .closed | .resetSession => []
  | _ => m.before.rpc.outbox

def isPoll : Bool :=
  match m.input with
  | .askPosition => true
  | _ => false

def wantsPosition : Bool :=
  match m.input with
  | .askPosition => true
  | .request method .. => method = Action.getPosition.method
  | _ => false

/-- A call puts these requests in flight, and their frames join those to be taken. -/
structure Queues (qs : List Request) : Prop where
  queued : m.queued = qs
  frames : m.after.rpc.outbox = m.framesLeft ++ qs.map Rpc.encode

variable {m}

theorem queues_nothing (hb : ∀ p ∈ m.after.rpc.pending, p.request.id < m.before.rpc.nextId)
    (ho : m.after.rpc.outbox = m.framesLeft) : m.Queues [] :=
  ⟨issuedFrom_below hb, by simp [ho]⟩

theorem queues_of_extend {r : Rpc ρ} {ps : List (Pending ρ)} (ha : m.after.rpc = r.extend ps)
    (hid : r.nextId = m.before.rpc.nextId) (hf : r.outbox = m.framesLeft)
    (hb : ∀ p ∈ r.pending, p.request.id < r.nextId) (hn : Rpc.NumberedFrom r.nextId ps) :
    m.Queues (ps.map (·.request)) := by
  constructor
  · rw [Moment.queued, ha, ← hid]
    exact issuedFrom_extend hb hn
  · rw [ha, ← hf, List.map_map]
    rfl

end Moment

/-- A request is sent, or nothing changes. -/
theorem request_player (p : Player ρ) (now : Nat) (method : String) (params : Wire.Params)
    (reply : Option ρ) :
    (p.perform now (.request method params reply)).player = p ∨
      ∃ value, params.toValue = .ok value ∧
        (p.perform now (.request method params reply)).player =
          { p with rpc := p.rpc.extend [p.rpc.next method value reply] } := by
  cases hv : params.toValue with
  | error fault => exact .inl (request_unsent (.inr ⟨_, Rpc.send_error hv method reply⟩) now).1
  | ok value =>
    cases ho : p.rpc.isOpen with
    | false => exact .inl (request_unsent (.inl (Rpc.send_closed hv ho method reply)) now).1
    | true =>
      refine .inr ⟨value, rfl, ?_⟩
      simp [perform, request, Rpc.send_open hv ho method reply, Rpc.extend]

namespace Moment

inductive Wants (m : Moment ρ) : String → Value → Prop
  | opens (hc : m.input = .opened) : Wants m "capabilities" .null
  | given (method params reply value) (hc : m.input = .request method params reply)
    (hv : params.toValue = .ok value) : Wants m method value
  | commanded (command q) (hc : m.input = .execute command)
    (hq : m.before.question command = some q) : Wants m q.1.method q.2
  | polls (hc : m.input = .askPosition) : Wants m "getposition" .null
  | follows (content q) (hc : m.content? = some content)
    (hq : m.before.followUp content = some q) : Wants m q.1.method q.2

/-- Of what is in flight after a call, some was in flight before it and is not settled by it, and
the rest was sent by it. -/
structure Turns (m : Moment ρ) (r : Rpc ρ) (ps : List (Pending ρ)) : Prop where
  after : m.after.rpc = r.extend ps
  queues : m.Queues (ps.map (·.request))
  kept : ∀ p ∈ r.pending, p ∈ m.before.rpc.pending ∧ m.settles p.request.id = false
  wanted : ∀ p ∈ ps, m.Wants p.request.method p.request.params

variable {m : Moment ρ}

/-- A call that sends nothing and settles nothing. -/
theorem turns_same (ho : m.before.rpc.Orderly) (ha : m.after.rpc.pending = m.before.rpc.pending)
    (hf : m.after.rpc.outbox = m.framesLeft) (hs : ∀ id, m.settles id = false) :
    m.Turns m.after.rpc [] where
  after := (Rpc.extend_nil _).symm
  queues := queues_nothing (by rw [ha]; exact ho.below) hf
  kept p hp := ⟨ha ▸ hp, hs p.request.id⟩
  wanted := List.forall_mem_nil _

/-- A call that leaves nothing in flight. -/
theorem turns_cleared {r : Rpc ρ} (ha : m.after.rpc = r) (hp : r.pending = [])
    (hf : r.outbox = m.framesLeft) : m.Turns r [] where
  after := by rw [Rpc.extend_nil, ha]
  queues := queues_nothing (by rw [ha, hp]; exact List.forall_mem_nil _) (by rw [ha, hf])
  kept := by rw [hp]; exact List.forall_mem_nil _
  wanted := List.forall_mem_nil _

/-- A call that asks, if anything, one question, after it has settled what it settles. -/
theorem turns_asked {r : Rpc ρ} {o : Option (Action × Value)} (hr : r.Orderly)
    (ha : m.after.rpc = r.askAll o.toList) (hid : r.nextId = m.before.rpc.nextId)
    (hf : r.outbox = m.framesLeft)
    (hk : ∀ p ∈ r.pending, p ∈ m.before.rpc.pending ∧ m.settles p.request.id = false)
    (hw : ∀ q, o = some q → m.Wants q.1.method q.2) : ∃ ps, m.Turns r ps := by
  obtain ⟨sent, hsent, hasked⟩ := Rpc.askAll_toList r o
  have hafter := ha.trans hsent
  have hnumbered : Rpc.NumberedFrom r.nextId sent.toList := by
    cases sent with
    | none => rfl
    | some p =>
      obtain ⟨q, -, rfl⟩ := hasked p rfl
      rfl
  refine ⟨sent.toList, hafter, queues_of_extend hafter hid hf hr.below hnumbered, hk, ?_⟩
  intro p hp
  obtain ⟨q, hq, rfl⟩ := hasked p (Option.mem_toList.mp hp)
  exact hw q hq

/-- A request is sent if its parameters can be read while the socket is open. -/
theorem turns_request {p : Player ρ} (ho : p.rpc.Orderly) (now : Nat) (method : String)
    (params : Wire.Params) (reply : Option ρ) :
    ∃ r ps, Turns ⟨p, now, .request method params reply⟩ r ps := by
  rcases request_player p now method params reply with hsame | ⟨value, hv, hsent⟩
  · have ha : (after ⟨p, now, .request method params reply⟩).rpc = p.rpc :=
      congrArg Player.rpc hsame
    exact ⟨_, _, turns_same ho (congrArg Rpc.pending ha) (congrArg Rpc.outbox ha) fun _ => rfl⟩
  · have ha : (after ⟨p, now, .request method params reply⟩).rpc =
        p.rpc.extend [p.rpc.next method value reply] := congrArg Player.rpc hsent
    refine ⟨p.rpc, _, ha, queues_of_extend ha rfl rfl ho.below rfl, fun q hq => ⟨hq, rfl⟩, ?_⟩
    intro q hq
    obtain rfl := List.mem_singleton.mp hq
    exact .given method params reply value rfl hv

/-- A message settles what it answers before its handler asks anything. -/
theorem turns_receive {p : Player ρ} (ho : p.rpc.Orderly) (now : Nat) (text : String) :
    ∃ r ps, Turns ⟨p, now, .receive text⟩ r ps := by
  cases hr : p.rpc.receive text with
  | error fault =>
    have ha : (after ⟨p, now, .receive text⟩).rpc = p.rpc := by
      simp only [after, done, perform, Done.of, receive_error hr]
    have hnone : message? ⟨p, now, .receive text⟩ = none := by
      simp [message?, Rpc.receive_error hr, Except.toOption]
    refine ⟨_, _, turns_same ho (congrArg Rpc.pending ha) (congrArg Rpc.outbox ha) fun id => ?_⟩
    simp [settles, forgets, hnone]
  | ok out =>
    obtain ⟨i, rpc⟩ := out
    obtain ⟨message, hm, rfl⟩ := Rpc.receive_ok hr
    refine ⟨_, turns_asked (ho.without _) (receive_asks hr now) rfl rfl ?_ ?_⟩
    · intro q hq
      obtain ⟨hq, hne⟩ := Rpc.mem_without.mp hq
      refine ⟨hq, ?_⟩
      simp [settles, forgets, message?, hm, Except.toOption, hne]
    · intro q hq
      obtain ⟨content, hc, hq⟩ := Option.bind_eq_some_iff.mp hq
      exact .follows content q ((content_receive hr now).trans hc) hq

theorem turns (ho : m.before.rpc.Orderly) : ∃ r ps, m.Turns r ps := by
  obtain ⟨p, now, c⟩ := m
  cases c with
  | opened =>
    refine ⟨p.rpc.setOpen true, _, opened_rpc p,
      queues_of_extend (opened_rpc p) rfl rfl ho.below rfl, fun q hq => ⟨hq, rfl⟩, ?_⟩
    intro q hq
    obtain rfl := List.mem_singleton.mp hq
    exact .opens rfl
  | closed => exact ⟨_, _, turns_cleared (closed_rpc p) rfl rfl⟩
  | resetSession =>
    have ha : (after ⟨p, now, .resetSession⟩).rpc = .new := by
      simp only [after, done, perform, Done.of, resetSession_eq]
    exact ⟨_, _, turns_cleared ha rfl rfl⟩
  | request method params reply => exact turns_request ho now method params reply
  | execute command =>
    have ha : (after ⟨p, now, .execute command⟩).rpc =
        p.rpc.askAll (p.question command).toList := by
      simp only [after, done, perform, Done.of, execute_eq]
      rfl
    exact ⟨_, turns_asked ho ha rfl rfl (fun q hq => ⟨hq, rfl⟩) fun q hq =>
      .commanded command q rfl hq⟩
  | receive text => exact turns_receive ho now text
  | askPosition =>
    have ha : (after ⟨p, now, .askPosition⟩).rpc =
        p.rpc.askAll (some (Action.getPosition, Value.null)).toList := by
      simp only [after, done, perform, Done.of, askPosition, send_eq]
      rfl
    refine ⟨_, turns_asked ho ha rfl rfl (fun q hq => ⟨hq, rfl⟩) ?_⟩
    intro q hq
    obtain rfl := Option.some.inj hq
    exact .polls rfl
  | tick =>
    have ha : (after ⟨p, now, .tick⟩).rpc = p.rpc := by
      simp only [after, done, perform, Done.of, onlyIf]
      split <;> rfl
    exact ⟨_, _, turns_same ho (congrArg Rpc.pending ha) (congrArg Rpc.outbox ha) fun _ => rfl⟩
  | drain => exact ⟨_, _, turns_same ho rfl rfl fun _ => rfl⟩

end Moment

/-- What is in flight was queued by a call that wanted it, and nothing has settled it since. -/
theorem in_flight_since (run : Run ρ) : ∀ p ∈ run.player.rpc.pending,
    Since
      (fun m => p.request ∈ m.queued ∧ Rpc.encode p.request ∈ m.after.rpc.outbox ∧
        m.Wants p.request.method p.request.params)
      (fun m => m.settles p.request.id = false) run.history := by
  have hrun := run.induct
    (P := fun h q => q.rpc.Orderly ∧ ∀ p ∈ q.rpc.pending,
      Since
        (fun m => p.request ∈ m.queued ∧ Rpc.encode p.request ∈ m.after.rpc.outbox ∧
          m.Wants p.request.method p.request.params)
        (fun m => m.settles p.request.id = false) h) ?_ ?_
  · exact hrun.2
  · intro pageSize pollInterval forwards observer
    exact ⟨Rpc.orderly_new, List.forall_mem_nil _⟩
  · rintro h q now c ⟨ho, hsince⟩
    refine ⟨(perform_holds ho now c).1, ?_⟩
    intro p hp
    obtain ⟨r, ps, hafter, hqueues, hkept, hwanted⟩ := Moment.turns (m := ⟨q, now, c⟩) ho
    rw [History.since_concat]
    have hpending : p ∈ r.pending ++ ps := by
      rw [Moment.after, Moment.done] at hafter
      rw [hafter] at hp
      exact hp
    rcases List.mem_append.mp hpending with hold | hnew
    · obtain ⟨hbefore, hsettles⟩ := hkept p hold
      exact .inr ⟨hsince p hbefore, hsettles⟩
    · have hq : p.request ∈ ps.map (·.request) := List.mem_map_of_mem hnew
      refine .inl ⟨hqueues.queued ▸ hq, ?_, hwanted p hnew⟩
      rw [hqueues.frames]
      exact List.mem_append_right _ (List.mem_map_of_mem hq)

/-- No command asks for the position. -/
theorem question_method {p : Player ρ} {command : Command} {q : Action × Value}
    (h : p.question command = some q) : q.1.method ≠ Action.getPosition.method := by
  have hasked {a : Action} {params : Json.Value} (h : some (a, params) = some q) : q.1 = a :=
    (congrArg Prod.fst (Option.some.inj h)).symm
  have hgated {gate : List Action} {a : Action} {params : Json.Value}
      (h : p.gated gate a params = some q) : q.1 = a := by
    unfold gated at h
    split at h
    · exact hasked h
    · cases h
  cases command with
  | play | pause | stop | next | volume | shuffle | loop | filter =>
    rw [hgated h]
    decide
  | change media =>
    simp only [question] at h
    split at h
    · rw [hasked h]
      decide
    · split at h
      · rw [hgated h]
        decide
      · cases h
  | about id =>
    cases id <;>
    · rw [hasked h]
      decide
  | list query =>
    simp only [question] at h
    split at h
    · rw [hasked h]
      decide
    · cases h
  | load =>
    rw [hasked h]
    decide
  | changePlayer | reconnect | quit => cases h

/-- Nothing that follows from a message asks for the position. -/
theorem followUp_method {p : Player ρ} {content : Content} {q : Action × Value}
    (h : p.followUp content = some q) : q.1.method ≠ Action.getPosition.method := by
  rcases follows_from h with ⟨hq, -⟩ | ⟨hq, -⟩ <;> rw [hq] <;> decide

theorem queues_of_poll {p : Player ρ} (ho : p.rpc.Orderly) (hc : p.isConnected = true) (now : Nat) :
    Moment.Queues ⟨p, now, .askPosition⟩
      [.new p.rpc.nextId Action.getPosition.method .null] := by
  have ha : (Moment.after ⟨p, now, .askPosition⟩).rpc =
      p.rpc.extend [p.rpc.next Action.getPosition.method .null none] := by
    simp only [Moment.after, Moment.done, perform, Done.of, askPosition, send_eq]
    exact if_pos hc
  exact Moment.queues_of_extend ha rfl rfl ho.below rfl

/-- Of what calls want, only what is for the position is a question for it. -/
theorem Moment.Wants.position {m : Moment ρ} {method : String} {params : Value}
    (h : m.Wants method params) (hm : method = Action.getPosition.method) :
    m.wantsPosition = true := by
  have hcapabilities : ("capabilities" : String) ≠ Action.getPosition.method := by decide
  cases h with
  | opens => exact absurd hm hcapabilities
  | given _ _ _ _ hc => simp [wantsPosition, hc, hm]
  | commanded command q hc hq => exact absurd hm (question_method hq)
  | polls hc => simp [wantsPosition, hc]
  | follows content q hc hq => exact absurd hm (followUp_method hq)

/-- Only a call that is for the position queues a question for it. -/
theorem Moment.queues {m : Moment ρ} (ho : m.before.rpc.Orderly) :
    ∃ qs, m.Queues qs ∧
      ∀ q ∈ qs, q.method = Action.getPosition.method → m.wantsPosition = true := by
  obtain ⟨r, ps, hturns⟩ := Moment.turns ho
  refine ⟨_, hturns.queues, ?_⟩
  intro q hq hm
  obtain ⟨p, hp, rfl⟩ := List.mem_map.mp hq
  exact (hturns.wanted p hp).position hm

end MediaRemote.Session.Player
