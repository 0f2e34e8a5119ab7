import Mathlib.Algebra.Order.BigOperators.Group.List
import Mathlib.Algebra.Order.Ring.Nat
import MediaRemote.Proofs.Session.Moments

namespace MediaRemote.Session

open Json (Value)
open Wire (Action Message Request)
open Step PlayerStep

variable {ρ : Type}

/-- One more than what may follow from a payload in this slot. -/
def Slot.weight : Slot → Nat
  | .capabilities => 3
  | .change | .filter => 2
  | .state | .next | .list | .options | .info | .setInfo | .volume | .position => 1

namespace Player

def weight (method : String) : Nat := (slotFor (fun _ => true) method).elim 1 Slot.weight

theorem weight_pos (method : String) : 0 < weight method := by
  unfold weight
  cases slotFor (fun _ => true) method with
  | none => exact Nat.one_pos
  | some slot => cases slot <;> simp [Slot.weight]

theorem weight_le_three (method : String) : weight method ≤ 3 := by
  unfold weight
  cases slotFor (fun _ => true) method with
  | none => simp
  | some slot => cases slot <;> simp [Slot.weight]

/-- What is advertised decides whether a method has a slot, but not which. -/
theorem slotFor_all {advertised : String → Bool} {method : String} {slot : Slot}
    (h : slotFor advertised method = some slot) : slotFor (fun _ => true) method = some slot := by
  unfold slotFor at h ⊢
  split at h <;> simp_all

theorem weight_of_slotFor {advertised : String → Bool} {method : String} {slot : Slot}
    (h : slotFor advertised method = some slot) : weight method = slot.weight := by
  rw [weight, slotFor_all h, Option.elim_some]

/-- The question that follows from a payload: for the state if capabilities offer it, for the list
if the player can list and the payload may have moved it. -/
def followUp (p : Player ρ) : Content → Option (Action × Value)
  | .capabilities d =>
    if d.actions.any (·.method = .status) then some (.status, .null) else none
  | .change c =>
    if p.capabilities.contains .list then
      (c.id.filter (0 ≤ ·)).map fun id => windowQuestion (.pageOf id.toNat p.pageSize)
    else none
  | .filter =>
    if p.capabilities.contains .list then some (windowQuestion ⟨p.pageSize, 0⟩) else none
  | _ => none

theorem deed_asks (p : Player ρ) (now : Nat) (request : Option Request) (content : Content) :
    (p.deed now request content).asks = (p.followUp content).toList := by
  cases content with
  | capabilities d =>
    simp only [deed, stateAsked, followUp]
    split <;> rfl
  | change c =>
    simp only [deed, changeDeed, pageAsked, followUp]
    split <;> rfl
  | filter =>
    simp only [deed, followUp]
    split <;> rfl
  | state c =>
    simp only [deed, stateDeed]
    split <;> rfl
  | next c =>
    simp only [deed, nextDeed]
    split <;> rfl
  | position a =>
    simp only [deed, positionDeed]
    split <;> rfl
  | list | options | info | setInfo | volume => rfl

/-- The question for the state follows from capabilities only, the question for the list from a
change or a filter only. -/
theorem follows_from {p : Player ρ} {content : Content} {q : Action × Value}
    (hq : p.followUp content = some q) :
    (q.1 = .status ∧ ∃ d, content = .capabilities d) ∨
      (q.1 = .list ∧ ((∃ c, content = .change c) ∨ content = .filter)) := by
  cases content with
  | capabilities d =>
    left
    simp only [followUp] at hq
    split at hq
    · obtain rfl := Option.some.inj hq
      exact ⟨rfl, d, rfl⟩
    · cases hq
  | change c =>
    right
    simp only [followUp] at hq
    split at hq
    · obtain ⟨id, -, rfl⟩ := Option.map_eq_some_iff.mp hq
      exact ⟨rfl, .inl ⟨c, rfl⟩⟩
    · cases hq
  | filter =>
    right
    simp only [followUp] at hq
    split at hq
    · obtain rfl := Option.some.inj hq
      exact ⟨rfl, .inr rfl⟩
    · cases hq
  | state | next | list | options | info | setInfo | volume | position => cases hq

/-- What follows from a payload weighs less than the slot that takes it in. -/
theorem follows_lighter {slot : Slot} {payload : Value} {content : Content}
    (hr : slot.read payload = some content) {p : Player ρ} {q : Action × Value}
    (hq : p.followUp content = some q) : weight q.1.method < slot.weight := by
  have hstatus : weight Action.status.method = 2 := rfl
  have hlist : weight Action.list.method = 1 := rfl
  rcases follows_from hq with ⟨ha, d, rfl⟩ | ⟨ha, ⟨c, rfl⟩ | rfl⟩ <;> rw [ha]
  all_goals cases slot <;> simp_all [Slot.read, Slot.weight]

end Player

namespace Rpc

def Answers (r : Rpc ρ) (text : String) : Prop :=
  ∃ message, Message.decoder.parse text = .ok message ∧
    ∃ p ∈ r.pending, message.requestId = some p.request.id

instance (r : Rpc ρ) (text : String) : Decidable (r.Answers text) :=
  decidable_of_iff
    ((Message.decoder.parse text).toOption.any fun message =>
      r.pending.any fun p => message.requestId = some p.request.id) <| by
    cases hm : Message.decoder.parse text <;> simp [Answers, hm, Except.toOption]

/-- An answer takes over the method of its request, which is no longer in flight. -/
theorem Answers.receive {r : Rpc ρ} {text : String} (h : r.Answers text) :
    ∃ i, ∃ p ∈ r.pending, r.receive text = .ok (i, r.without (some p.request.id)) ∧
      i.message.method = some p.request.method := by
  obtain ⟨message, hm, p, hp, hid⟩ := h
  have hfound : (r.find? p.request.id).isSome := List.find?_isSome.mpr ⟨p, hp, by simp⟩
  obtain ⟨q, hq⟩ := Option.isSome_iff_exists.mp hfound
  refine ⟨⟨{ message with method := some q.request.method }, some q.request, q.reply⟩, q,
    List.mem_of_find?_eq_some hq, ?_, rfl⟩
  simp only [Rpc.receive, hm, hid, Option.bind_some, hq, discard_eq_without]

/-- What is in flight, by weight. -/
def burden (r : Rpc ρ) : Nat := (r.pending.map (Player.weight ·.request.method)).sum

theorem burden_extend (r : Rpc ρ) (ps : List (Pending ρ)) :
    (r.extend ps).burden = r.burden + (ps.map (Player.weight ·.request.method)).sum := by
  simp [burden, extend]

theorem length_le_burden (r : Rpc ρ) : r.pending.length ≤ r.burden := by
  unfold burden
  induction r.pending with
  | nil => simp
  | cons p ps ih =>
    have hp := Player.weight_pos p.request.method
    simp only [List.length_cons, List.map_cons, List.sum_cons]
    omega

theorem burden_le (r : Rpc ρ) : r.burden ≤ 3 * r.pending.length := by
  unfold burden
  induction r.pending with
  | nil => simp
  | cons p ps ih =>
    have hp := Player.weight_le_three p.request.method
    simp only [List.length_cons, List.map_cons, List.sum_cons]
    omega

/-- An answered request takes its weight with it. -/
theorem burden_without {r : Rpc ρ} {p : Pending ρ} (hp : p ∈ r.pending) :
    (r.without (some p.request.id)).burden + Player.weight p.request.method ≤ r.burden := by
  obtain ⟨before, after, hsplit⟩ := List.append_of_mem hp
  have hkept (ps : List (Pending ρ)) :
      ((ps.filter fun q => some p.request.id != some q.request.id).map
          (Player.weight ·.request.method)).sum ≤ (ps.map (Player.weight ·.request.method)).sum :=
    (List.filter_sublist.map _).sum_le_sum (by simp)
  have hbefore := hkept before
  have hafter := hkept after
  have hself : (some p.request.id != some p.request.id) = false := bne_self_eq_false _
  simp only [burden, without, hsplit, List.filter_append, List.filter_cons, hself,
    Bool.false_eq_true, if_false, List.map_append, List.map_cons, List.sum_append, List.sum_cons]
  omega

/-- While open the question is sent, while closed nothing is. -/
theorem askAll_toList (r : Rpc ρ) (q : Option (Action × Value)) :
    ∃ sent : Option (Pending ρ), r.askAll q.toList = r.extend sent.toList ∧
      ∀ p, sent = some p → ∃ x, q = some x ∧ p = r.next x.1.method x.2 none := by
  cases q with
  | none => exact ⟨none, (extend_nil r).symm, by simp⟩
  | some q =>
    have hask : r.askAll (some q).toList = r.ask q := rfl
    rw [hask]
    unfold ask
    split
    · refine ⟨some (r.next q.1.method q.2 none), rfl, ?_⟩
      intro p hp
      exact ⟨q, rfl, (Option.some.inj hp).symm⟩
    · exact ⟨none, (extend_nil r).symm, by simp⟩

end Rpc

namespace Player

/-- For a message only what follows from it is asked. -/
theorem receive_asks {p : Player ρ} {text : String} {i : Inbound ρ} {rpc : Rpc ρ}
    (hr : p.rpc.receive text = .ok (i, rpc)) (now : Nat) :
    (receive now text p).1.rpc = rpc.askAll ((p.contentOf i).bind p.followUp).toList := by
  rw [(doing_receive hr now).player]
  cases hc : p.contentOf i with
  | none =>
    rw [taken_none hc]
    rfl
  | some content =>
    rw [taken_some hc, Option.bind_some, ← deed_asks p now i.request]
    rfl

/-- For a message at most one request is sent, and it follows from what the message says. -/
theorem receive_sends {p : Player ρ} {text : String} {i : Inbound ρ} {rpc : Rpc ρ}
    (hr : p.rpc.receive text = .ok (i, rpc)) (now : Nat) :
    ∃ sent : Option (Pending ρ), (receive now text p).1.rpc = rpc.extend sent.toList ∧
      ∀ s, sent = some s → ∃ content q, p.contentOf i = some content ∧
        p.followUp content = some q ∧ s = rpc.next q.1.method q.2 none := by
  obtain ⟨sent, hsent, hasked⟩ := Rpc.askAll_toList rpc ((p.contentOf i).bind p.followUp)
  refine ⟨sent, (receive_asks hr now).trans hsent, ?_⟩
  intro s hs
  obtain ⟨q, hq, hnext⟩ := hasked s hs
  obtain ⟨content, hc, hq⟩ := Option.bind_eq_some_iff.mp hq
  exact ⟨content, q, hc, hq, hnext⟩

/-- At most one frame is queued: the question for the state after capabilities, or the question for
the list after a change or a filter. -/
theorem receive_queues (p : Player ρ) (now : Nat) (text : String) :
    ∃ sent : Option Request,
      (receive now text p).1.rpc.outbox = p.rpc.outbox ++ sent.toList.map Rpc.encode ∧
        ∀ q, sent = some q →
          (q.method = "status" ∧
            ∃ d, Moment.content? ⟨p, now, .receive text⟩ = some (.capabilities d)) ∨
          (q.method = "list" ∧
            ((∃ c, Moment.content? ⟨p, now, .receive text⟩ = some (.change c)) ∨
              Moment.content? ⟨p, now, .receive text⟩ = some .filter)) := by
  cases hr : p.rpc.receive text with
  | error fault =>
    rw [receive_error hr]
    exact ⟨none, by simp, by simp⟩
  | ok out =>
    obtain ⟨i, rpc⟩ := out
    obtain ⟨sent, hsent, hfollows⟩ := receive_sends hr now
    obtain ⟨message, -, rfl⟩ := Rpc.receive_ok hr
    refine ⟨sent.map (·.request), ?_, ?_⟩
    · rw [hsent]
      cases sent <;> simp [Rpc.extend, Rpc.without]
    · intro q hq
      obtain ⟨s, hs, rfl⟩ := Option.map_eq_some_iff.mp hq
      obtain ⟨content, x, hc, hx, rfl⟩ := hfollows s hs
      rw [Moment.content_receive hr, hc]
      rcases follows_from hx with ⟨ha, d, rfl⟩ | ⟨ha, hmoved⟩
      · exact .inl ⟨congrArg Action.method ha, d, rfl⟩
      · refine .inr ⟨congrArg Action.method ha, ?_⟩
        rcases hmoved with ⟨c, rfl⟩ | rfl
        · exact .inl ⟨c, rfl⟩
        · exact .inr rfl

/-- What follows from a message weighs less than the method of the message. -/
theorem follows_method {d : Option Wire.Descriptor} {p : Player ρ} (hn : Negotiated d p)
    {i : Inbound ρ} {method : String} (hm : i.message.method = some method) {content : Content}
    (hc : p.contentOf i = some content) {q : Action × Value} (hq : p.followUp content = some q) :
    weight q.1.method < weight method := by
  obtain ⟨slot, hslot, payload, -, hread⟩ : ∃ slot, p.routes.resolve method = some slot ∧
      ∃ payload, i.message.payload = some payload ∧ slot.read payload = some content := by
    unfold contentOf at hc
    split at hc
    · simpa [hm, Option.bind_eq_some_iff] using hc
    · cases hc
  rw [hn.routes, resolve_routesFor] at hslot
  rw [weight_of_slotFor hslot]
  exact follows_lighter hread hq

/-- An answer leaves less in flight than there was. -/
theorem receive_lighter {d : Option Wire.Descriptor} {p : Player ρ} (hn : Negotiated d p)
    {text : String} (h : p.rpc.Answers text) (now : Nat) :
    (receive now text p).1.rpc.burden < p.rpc.burden := by
  obtain ⟨i, answered, hanswered, hr, hm⟩ := h.receive
  obtain ⟨sent, hsent, hfollows⟩ := receive_sends hr now
  have hgone := Rpc.burden_without hanswered
  rw [hsent, Rpc.burden_extend]
  cases sent with
  | none =>
    have hpos := weight_pos answered.request.method
    simp only [Option.toList_none, List.map_nil, List.sum_nil]
    omega
  | some s =>
    obtain ⟨content, q, hc, hq, rfl⟩ := hfollows s rfl
    have hless := follows_method hn hm hc hq
    simp only [Option.toList_some, List.map_singleton, List.sum_singleton, Rpc.next, Request.new]
    omega

def hearing (p : Player ρ) (frames : Nat → Nat × String) : Nat → Player ρ
  | 0 => p
  | k + 1 => (receive (frames k).1 (frames k).2 (p.hearing frames k)).1

theorem hearing_negotiated {d : Option Wire.Descriptor} {p : Player ρ} (hn : Negotiated d p)
    (frames : Nat → Nat × String) (k : Nat) : ∃ d, Negotiated d (p.hearing frames k) := by
  induction k with
  | zero => exact ⟨d, hn⟩
  | succ k ih =>
    obtain ⟨d, hd⟩ := ih
    exact ⟨_, hd.step (frames k).1 (.receive (frames k).2)⟩

theorem hearing_lighter {d : Option Wire.Descriptor} {p : Player ρ} (hn : Negotiated d p)
    {frames : Nat → Nat × String} {k : Nat}
    (ha : ∀ j < k, (p.hearing frames j).rpc.Answers (frames j).2) :
    k + (p.hearing frames k).rpc.burden ≤ p.rpc.burden := by
  induction k with
  | zero => simp [hearing]
  | succ k ih =>
    obtain ⟨d, hd⟩ := hearing_negotiated hn frames k
    have hbefore := ih fun j hj => ha j (by omega)
    have hless := receive_lighter hd (ha k (by omega)) (frames k).1
    have hnext : p.hearing frames (k + 1) =
        (receive (frames k).1 (frames k).2 (p.hearing frames k)).1 := rfl
    rw [hnext]
    omega

/-- A frame leads to one request at most: for the state if it brings capabilities, for the list if
it brings a change or a filter. Once only answers arrive, three for each request in flight are the
most that can, and then nothing is in flight. -/
theorem answers_come_to_an_end (run : Run ρ) :
    (∀ now text, ∃ sent : Option Request,
      (receive now text run.player).1.rpc.outbox =
          run.player.rpc.outbox ++ sent.toList.map Rpc.encode ∧
        ∀ q, sent = some q →
          (q.method = "status" ∧
            ∃ d, Moment.content? ⟨run.player, now, .receive text⟩ = some (.capabilities d)) ∨
          (q.method = "list" ∧
            ((∃ c, Moment.content? ⟨run.player, now, .receive text⟩ = some (.change c)) ∨
              Moment.content? ⟨run.player, now, .receive text⟩ = some .filter))) ∧
    (∀ frames k, (∀ j < k, (run.player.hearing frames j).rpc.Answers (frames j).2) →
      k + (run.player.hearing frames k).rpc.pending.length ≤
        3 * run.player.rpc.pending.length) ∧
    ∀ frames, (∀ k, (run.player.hearing frames k).rpc.pending ≠ [] →
        (run.player.hearing frames k).rpc.Answers (frames k).2) →
      ∃ k ≤ 3 * run.player.rpc.pending.length, (run.player.hearing frames k).rpc.pending = [] := by
  have hbound : ∀ frames k,
      (∀ j < k, (run.player.hearing frames j).rpc.Answers (frames j).2) →
        k + (run.player.hearing frames k).rpc.pending.length ≤
          3 * run.player.rpc.pending.length := by
    intro frames k ha
    have hless := hearing_lighter (run_negotiated run) ha
    have hfirst := Rpc.burden_le run.player.rpc
    have hlast := Rpc.length_le_burden (run.player.hearing frames k).rpc
    omega
  refine ⟨receive_queues run.player, hbound, ?_⟩
  intro frames hanswers
  by_contra hnever
  simp only [not_exists, not_and] at hnever
  have hmore := hbound frames (3 * run.player.rpc.pending.length + 1) fun j hj =>
    hanswers j (hnever j (by omega))
  omega

def justOpened : Run Unit := ⟨5, 1000, false, .live, [(0, .opened)]⟩

/-- The capabilities offer the state and the list, and the state has a current entry. -/
def longestChain : Nat → Nat × String
  | 0 =>
    (1, Value.text <| .object [("id", .integer 0), ("result", .object [("actions",
      .array [.object [("method", .string "status")], .object [("method", .string "list")]])])])
  | 1 => (2, Value.text <| .object [("id", .integer 1), ("result", .object [("id", .integer 7)])])
  | _ => (3, Value.text <| .object [("id", .integer 2), ("result", .object [])])

/-- Three answers may be needed for one request. -/
theorem three_answers_for_one_request :
    (∀ j < 3, (justOpened.player.hearing longestChain j).rpc.Answers (longestChain j).2) ∧
      justOpened.player.rpc.pending.length = 1 ∧
      (∀ j < 3, (justOpened.player.hearing longestChain j).rpc.pending.length = 1) ∧
      (justOpened.player.hearing longestChain 3).rpc.pending = [] := by
  have hanswers :
      ∀ j < 3, (justOpened.player.hearing longestChain j).rpc.Answers (longestChain j).2 := by
    decide +kernel
  have hone : justOpened.player.rpc.pending.length = 1 := by decide +kernel
  have hflight : ∀ j < 3, (justOpened.player.hearing longestChain j).rpc.pending.length = 1 := by
    decide +kernel
  have hbound := (answers_come_to_an_end justOpened).2.1 longestChain 3 hanswers
  refine ⟨hanswers, hone, hflight, List.length_eq_zero_iff.mp ?_⟩
  omega

end Player
end MediaRemote.Session
