import MediaRemote.Proofs.Session.Ineffective
import MediaRemote.Proofs.Session.Playback
import MediaRemote.Proofs.Session.Queued

namespace MediaRemote

open Json (Value Decoder)

namespace Wire

structure Window.Fits (w : Window) : Prop where
  maxitems : w.maxitems < bound32
  first : w.first < bound64

structure WindowQuery.Fits (q : WindowQuery) : Prop where
  maxitems : ∀ n, q.maxitems = some n → n < bound32
  first : ∀ n, q.first = some n → n < bound64
  id : ∀ n, q.id = some n → n < bound64

theorem Window.fits_pageOf {id maxitems : Nat} (hid : id < bound64) (hm : maxitems < bound32) :
    (pageOf id maxitems).Fits := by
  refine ⟨hm, ?_⟩
  simp only [pageOf]
  omega

theorem WindowQuery.Fits.resolve {q : WindowQuery} (hq : q.Fits) {pageSize : Nat}
    (hp : pageSize < bound32) : (q.resolve pageSize).Fits := by
  have hm : (q.maxitems.filter (0 < ·)).getD pageSize < bound32 := by
    cases hf : q.maxitems.filter (0 < ·) with
    | none => exact hp
    | some n =>
      obtain ⟨hn, -⟩ := Option.filter_eq_some_iff.mp hf
      exact hq.maxitems n hn
  unfold WindowQuery.resolve
  split
  · rename_i hfirst
    exact ⟨hm, hq.first _ hfirst⟩
  · rename_i hid
    exact Window.fits_pageOf (hq.id _ hid) hm
  · exact ⟨hm, Nat.two_pow_pos 64⟩

/-- Whatever stands there, a number that is read leniently has 64 bits. -/
theorem signed_of_lenient {v : Value} {o : Option Int}
    (h : (Decoder.lenient (.option .signed)).view v = some o) : ∀ n, o = some n → IsSigned64 n := by
  rintro n rfl
  have hread : (Decoder.option .signed).view v = some (some n) := by
    cases hv : (Decoder.option .signed).view v <;> simp_all [Decoder.lenient]
  simp only [Decoder.option] at hread
  split at hread
  · cases hread
  · obtain ⟨m, hm, hmn⟩ := Option.map_eq_some_iff.mp hread
    obtain rfl := Option.some.inj hmn
    simp only [Decoder.signed, Decoder.scalar, Value.signed?] at hm
    split at hm
    · split at hm
      · obtain rfl := Option.some.inj hm
        assumption
      · cases hm
    · cases hm

/-- A change that was read has an identifier of 64 bits. -/
theorem Change.id_signed {v : Value} {c : Change} (h : decoder.view v = some c) :
    ∀ id, c.id = some id → IsSigned64 id := by
  refine Decoder.record_view_keeps (P := fun c => ∀ id, c.id = some id → IsSigned64 id) ?_
    (by simp [blank]) h
  intro f hf v x x' hx hv
  simp only [fields, List.mem_cons, List.not_mem_nil, or_false] at hf
  rcases hf with rfl | hf
  · obtain ⟨o, ho, rfl⟩ := Decoder.Field.optional_view.mp hv
    exact signed_of_lenient ho
  · -- no other field touches the identifier
    rcases hf with rfl | rfl | rfl | rfl | rfl | rfl | rfl | rfl | rfl <;>
    · obtain ⟨_, -, rfl⟩ := Decoder.Field.optional_view.mp hv
      exact hx

end Wire

namespace Session

open History (Since)
open Wire (Action Change Request Window)

variable {ρ : Type}

theorem below_integer {n bound : Nat} (h : n < bound) :
    Value.below? bound (.integer n) = some n := by
  have hrange : 0 ≤ (n : Int) ∧ (n : Int) < bound := by omega
  simp [Value.below?, hrange]

/-- A window that fits is read as it was written. -/
theorem view_windowQuestion {w : Window} (hw : w.Fits) :
    Window.decoder.view (windowQuestion w).2 = some w := by
  have hm := below_integer hw.maxitems
  have hf := below_integer hw.first
  simp only [Window.decoder, windowQuestion, Decoder.record, Decoder.viewMembers,
    Decoder.Field.needed, Dictionary.find?_cons]
  simp [Decoder.below, Decoder.unsigned, Decoder.scalar, Value.unsigned?, hm, hf]

/-- A message takes over the method of the request that it answers. -/
theorem Rpc.method_of_request {r r' : Rpc ρ} {text : String} {i : Inbound ρ} {q : Request}
    (hr : r.receive text = .ok (i, r')) (hq : i.request = some q) :
    i.message.method = some q.method := by
  unfold Rpc.receive at hr
  split at hr
  · cases hr
  · split at hr
    · obtain ⟨rfl, -⟩ := Prod.mk.inj (Except.ok.inj hr)
      exact congrArg _ (congrArg Request.method (Option.some.inj hq))
    · obtain ⟨rfl, -⟩ := Prod.mk.inj (Except.ok.inj hr)
      cases hq

namespace Player

/-- Of all commands only that for the list asks for it. -/
theorem question_window {p : Player ρ} {command : Command} {q : Action × Value}
    (h : p.question command = some q) (hl : q.1.method = "list") :
    ∃ query, command = .list query ∧ q = windowQuestion (query.resolve p.pageSize) := by
  have hother {a : Action} {params : Value} (ha : a.method ≠ "list")
      (hq : some (a, params) = some q) : False := by
    obtain rfl := Option.some.inj hq
    exact ha hl
  have hgated {gate : List Action} {a : Action} {params : Value} (ha : a.method ≠ "list")
      (hq : p.gated gate a params = some q) : False := by
    unfold gated at hq
    split at hq
    · exact hother ha hq
    · cases hq
  cases command with
  | list query =>
    simp only [question] at h
    split at h
    · exact ⟨query, rfl, (Option.some.inj h).symm⟩
    · cases h
  | change media =>
    simp only [question] at h
    split at h
    · exact (hother (by decide) h).elim
    · split at h
      · exact (hgated (by decide) h).elim
      · cases h
  | about id => cases id <;> exact (hother (by decide) h).elim
  | load => exact (hother (by decide) h).elim
  | changePlayer | reconnect | quit => cases h
  | play | pause | stop | next | volume | shuffle | loop | filter =>
    exact (hgated (by decide) h).elim

/-- The page of the entry is asked for if there is an entry and the player can list. -/
theorem followUp_change {p : Player ρ} {c : Change} {q : Action × Value} :
    p.followUp (.change c) = some q ↔
      ∃ n : Nat, c.id = some (n : Int) ∧ p.capabilities.contains .list = true ∧
        q = windowQuestion (.pageOf n p.pageSize) := by
  have hnatural (id : Int) : 0 ≤ id ↔ ∃ n : Nat, id = n := by
    constructor
    · intro h
      exact ⟨id.toNat, by omega⟩
    · rintro ⟨n, rfl⟩
      omega
  simp only [followUp, Option.ite_none_right_eq_some, Option.map_eq_some_iff,
    Option.filter_eq_some_iff, decide_eq_true_eq, hnatural]
  constructor
  · rintro ⟨hc, id, ⟨hid, n, rfl⟩, rfl⟩
    exact ⟨n, hid, hc, rfl⟩
  · rintro ⟨n, hid, hc, rfl⟩
    exact ⟨hc, n, ⟨hid, n, rfl⟩, rfl⟩

/-- What follows from a content asks for a page of the list or for its start, or for something
else. -/
theorem followUp_window {p : Player ρ} {content : Content} {q : Action × Value}
    (h : p.followUp content = some q) (hl : q.1.method = "list") :
    (∃ (c : Change) (n : Nat), content = .change c ∧ c.id = some (n : Int) ∧
      q = windowQuestion (.pageOf n p.pageSize)) ∨
      (content = .filter ∧ q = windowQuestion ⟨p.pageSize, 0⟩) := by
  cases content with
  | capabilities d =>
    simp only [followUp] at h
    split at h
    · obtain rfl := Option.some.inj h
      exact absurd hl (by decide)
    · cases h
  | change c =>
    obtain ⟨n, hid, -, rfl⟩ := followUp_change.mp h
    exact .inl ⟨c, n, rfl, hid, rfl⟩
  | filter =>
    simp only [followUp] at h
    split at h
    · exact .inr ⟨rfl, (Option.some.inj h).symm⟩
    · cases h
  | state | next | list | options | info | setInfo | volume | position => cases h

namespace Moment

variable {m : Moment ρ}

/-- A change that is taken in was read from a payload. -/
theorem view_of_change {c : Change} (h : m.content? = some (.change c)) :
    ∃ v, Change.decoder.view v = some c := by
  obtain ⟨i, -, hi⟩ := Option.bind_eq_some_iff.mp h
  unfold contentOf at hi
  split at hi
  · obtain ⟨slot, -, hslot⟩ := Option.bind_eq_some_iff.mp hi
    obtain ⟨v, -, hread⟩ := Option.bind_eq_some_iff.mp hslot
    refine ⟨v, ?_⟩
    cases slot <;> simp_all [Slot.read]
  · cases hi

/-- The window that a request asks for, by who made the request. The player writes one into those of
its own; from those that it is given it is read, if it can be. -/
inductive AsksForWindow (m : Moment ρ) (q : Request) : Option Window → Prop
  | own (w : Window) (hc : ∀ method params reply, m.input ≠ .request method params reply)
    (hq : q.params = .object [("first", .integer w.first), ("maxitems", .integer w.maxitems)]) :
    AsksForWindow m q (some w)
  | given (method params reply value) (hc : m.input = .request method params reply)
    (hv : params.toValue = .ok value) (hq : q.params = value) :
    AsksForWindow m q (Window.decoder.view value)

structure Fits (m : Moment ρ) : Prop where
  pageSize : m.before.pageSize < bound32
  query : ∀ query, m.input = .execute (.list query) → query.Fits

/-- A page size that was configured to fit still does so when it is no longer 0. -/
theorem fits_of_pageSize {pageSize : Nat} (hsize : m.before.pageSize = max pageSize 1)
    (hpage : pageSize < bound32) (hq : ∀ query, m.input = .execute (.list query) → query.Fits) :
    m.Fits := by
  have hone : 1 < bound32 := by decide
  exact ⟨by omega, hq⟩

/-- The windows that the player asks for of its own, by what it asks for them. -/
inductive Lists (m : Moment ρ) : Window → Prop
  | change (c) (n : Nat) (hc : m.content? = some (.change c)) (hid : c.id = some (n : Int)) :
    Lists m (.pageOf n m.before.pageSize)
  | filter (hc : m.content? = some .filter) : Lists m ⟨m.before.pageSize, 0⟩
  | command (query) (hc : m.input = .execute (.list query)) :
    Lists m (query.resolve m.before.pageSize)

theorem Lists.fits {w : Window} (h : m.Lists w) (hf : m.Fits) : w.Fits := by
  cases h with
  | change c n hc hid =>
    obtain ⟨v, hv⟩ := view_of_change hc
    have hsigned := Change.id_signed hv n hid
    apply Window.fits_pageOf _ hf.pageSize
    simp only [IsSigned64, bound63] at hsigned
    simp only [bound64]
    omega
  | filter hc => exact ⟨hf.pageSize, Nat.two_pow_pos 64⟩
  | command query hc => exact (hf.query query hc).resolve hf.pageSize

/-- A request is given to the player, or the player makes it. -/
theorem Wants.given_or_own {method : String} {value : Value} (h : m.Wants method value) :
    (∃ params reply, m.input = .request method params reply ∧ params.toValue = .ok value) ∨
      ∀ method params reply, m.input ≠ .request method params reply := by
  cases h with
  | given _ params reply _ hc hv => exact .inl ⟨params, reply, hc, hv⟩
  | opens hc => simp [hc]
  | polls hc => simp [hc]
  | commanded command q hc hq => simp [hc]
  | follows content q hc hq =>
    right
    intro method params reply hinput
    simp [content?, inbound?, hinput] at hc

/-- A request for the list that the player makes asks for one of its windows. -/
theorem Wants.lists {method : String} {value : Value} (h : m.Wants method value)
    (hl : method = "list") (hown : ∀ method params reply, m.input ≠ .request method params reply) :
    ∃ w, m.Lists w ∧ value = (windowQuestion w).2 := by
  cases h with
  | opens hc => exact absurd hl (by decide)
  | polls hc => exact absurd hl (by decide)
  | given _ params reply _ hc hv => exact absurd hc (hown method params reply)
  | commanded command x hc hx =>
    obtain ⟨query, rfl, rfl⟩ := question_window hx hl
    exact ⟨_, .command query hc, rfl⟩
  | follows content x hc hx =>
    rcases followUp_window hx hl with ⟨c, n, rfl, hid, rfl⟩ | ⟨rfl, rfl⟩
    · exact ⟨_, .change c n hc hid, rfl⟩
    · exact ⟨_, .filter hc, rfl⟩

/-- The window that is read back is the one that was asked for. -/
theorem Wants.window {method : String} {value : Value} (h : m.Wants method value)
    (hl : method = "list") (hf : m.Fits) {q : Request} (hq : q.params = value) :
    m.AsksForWindow q (cursorOf (some q)) := by
  have hcursor : cursorOf (some q) = Window.decoder.view value := by
    rw [cursorOf, Option.bind_some, hq]
  rw [hcursor]
  rcases h.given_or_own with ⟨params, reply, hc, hv⟩ | hown
  · exact .given method params reply value hc hv hq
  · obtain ⟨w, hw, rfl⟩ := h.lists hl hown
    rw [view_windowQuestion (hw.fits hf)]
    exact .own w hown hq

end Moment

/-- Only one name ever resolves to the list. -/
theorem slotFor_list {advertised : String → Bool} {method : String}
    (h : slotFor advertised method = some .list) : method = "list" := by
  unfold slotFor at h
  split at h
  case h_11 => rfl
  all_goals first | cases h | (split at h <;> cases h)

/-- No content but a list touches the list. -/
theorem deed_list (p : Player ρ) (now : Nat) (request : Option Request) (content : Content) :
    (p.deed now request content).cache.list =
      match content with
      | .list l => some ⟨cursorOf request, l.playlist, l.count⟩
      | _ => p.cache.list := by
  cases content with
  | state c =>
    simp only [deed, stateDeed]
    split <;> rfl
  | next c =>
    simp only [deed, nextDeed]
    split <;> rfl
  | position a =>
    simp only [deed, positionDeed]
    split <;> rfl
  | _ => rfl

namespace Moment

variable {m : Moment ρ}

theorem Course.list {s : Cache} {timer : Option Nat} {told : List Event}
    (h : m.Course s timer told) :
    s.list =
      match m.content? with
      | some (.list l) => some ⟨cursorOf m.answered?, l.playlist, l.count⟩
      | _ => m.before.cache.list := by
  cases h with
  | closes hf =>
    rw [content_of_forgets hf]
    split <;> rfl
  | takes content hc before after ha =>
    rw [hc]
    have hlist := m.before.deed_list m.now m.answered? content
    cases content <;> exact hlist
  | ticks hi due ht hd => rw [content_of_tick hi]
  | rests hf hc told ha => rw [hc]

/-- What arrives comes as a text that can be read. -/
theorem receive_of_inbound {i : Inbound ρ} (h : m.inbound? = some i) :
    ∃ text rpc, m.input = .receive text ∧ m.before.rpc.receive text = .ok (i, rpc) := by
  unfold inbound? at h
  split at h
  · rename_i text hc
    obtain ⟨out, hr, rfl⟩ := Option.map_eq_some_iff.mp h
    cases hreceive : m.before.rpc.receive text with
    | error fault => simp [hreceive, Except.toOption] at hr
    | ok out' =>
      obtain rfl : out' = out := by simpa [hreceive, Except.toOption] using hr
      exact ⟨text, out'.2, hc, hreceive⟩
  · cases h

/-- What is answered is in flight, under the identifier of the message. -/
theorem answered_iff (ho : m.before.rpc.Orderly) (q : Request) :
    m.answered? = some q ↔
      (∃ message, m.message? = some message ∧ message.requestId = some q.id) ∧
        q ∈ m.before.rpc.pending.map (·.request) := by
  constructor
  · intro ha
    obtain ⟨i, hi, hq⟩ := Option.bind_eq_some_iff.mp ha
    obtain ⟨text, rpc, hc, hr⟩ := receive_of_inbound hi
    obtain ⟨⟨p, hp, rfl⟩, message, hm, hid⟩ := Rpc.receive_request hr hq
    refine ⟨⟨message, ?_, hid⟩, List.mem_map_of_mem hp⟩
    simp [message?, hc, hm, Except.toOption]
  · rintro ⟨⟨message, hm, hid⟩, hq⟩
    obtain ⟨p, hp, rfl⟩ := List.mem_map.mp hq
    obtain ⟨text, -, -, hc, hparse, -⟩ := receive_of_message hm
    have hr := m.before.rpc.receive_correlated hparse
    simp only [answered?, inbound?, hc, hr, Except.toOption, Option.map_some, Option.bind_some]
    exact (Rpc.correlated_request ho hp).mpr hid

/-- A list that answers a request answers one for the list. -/
theorem method_of_list {d : Option Wire.Descriptor} (hn : Negotiated d m.before) {l : Wire.Listing}
    (hc : m.content? = some (.list l)) {q : Request} (ha : m.answered? = some q) :
    q.method = "list" := by
  obtain ⟨i, hi, hq⟩ := Option.bind_eq_some_iff.mp ha
  have hcontent : m.before.contentOf i = some (.list l) := by rwa [content?, hi] at hc
  obtain ⟨text, rpc, -, hr⟩ := receive_of_inbound hi
  have hmethod := Rpc.method_of_request hr hq
  unfold contentOf at hcontent
  split at hcontent
  · rw [hmethod, Option.bind_some, hn.routes, resolve_routesFor] at hcontent
    obtain ⟨slot, hslot, hread⟩ := Option.bind_eq_some_iff.mp hcontent
    obtain ⟨payload, -, hread⟩ := Option.bind_eq_some_iff.mp hread
    obtain rfl : slot = .list := by cases slot <;> simp_all [Slot.read]
    exact slotFor_list hslot
  · cases hcontent

end Moment

/-- If the numbers of a run fit into their bits, so do those of each of its moments. -/
theorem run_fits {run : Run ρ} (hpage : run.pageSize < bound32)
    (hqueries : ∀ c ∈ run.calls, ∀ query, c.2 = .execute (.list query) → query.Fits) :
    ∀ m ∈ run.history, Moment.Fits m := by
  have hpages : ∀ m ∈ run.history, m.before.pageSize = max run.pageSize 1 := by
    refine History.before_of_moments (I := fun p : Player ρ => p.pageSize = max run.pageSize 1)
      ?_ rfl _
    intro p now c hp
    exact (perform_make p now c).pageSize.trans hp
  intro m hm
  have hcall : (m.now, m.input) ∈ run.calls := by
    have hinputs : run.history.map (fun m => (m.now, m.input)) = run.calls :=
      History.moments_inputs ..
    rw [← hinputs]
    exact List.mem_map_of_mem hm
  exact Moment.fits_of_pageSize (hpages m hm) hpage (hqueries _ hcall)

/-- A list that arrives is kept with its count and with the window that the answered request asks
for: if the player made the request, the one that was written into it; if it was given, the one that
can be read from its parameters, if one can; and none if nothing is answered. The request was
queued, under the identifier that the message gives, and nothing has settled it since. Nothing but a
list that arrives touches the list that is kept. -/
theorem list_comes_with_its_window (run : Run ρ) (hpage : run.pageSize < bound32)
    (hqueries : ∀ c ∈ run.calls, ∀ query, c.2 = .execute (.list query) → query.Fits)
    (m : Moment ρ) (hm : m.before = run.player) :
    (∀ l, m.content? = some (.list l) → ∃ cursor,
      m.after.cache.list = some ⟨cursor, l.playlist, l.count⟩ ∧
      (m.answered? = none → cursor = none) ∧
      ∀ q, m.answered? = some q → q.method = "list" ∧
        Since
          (fun x => q ∈ x.queued ∧ Rpc.encode q ∈ x.after.rpc.outbox ∧ x.AsksForWindow q cursor)
          (fun x => x.settles q.id = false) run.history) ∧
    (∀ q, m.answered? = some q ↔
      (∃ message, m.message? = some message ∧ message.requestId = some q.id) ∧
        q ∈ run.player.rpc.pending.map (·.request)) ∧
    ((∀ l, m.content? ≠ some (.list l)) → m.after.cache.list = run.player.cache.list) := by
  have hlist := (Moment.course m).list
  have ho : m.before.rpc.Orderly := hm ▸ (run_tracks run).orderly
  have hn : Negotiated (latest run.history) m.before := hm ▸ run_negotiated run
  refine ⟨?_, ?_, ?_⟩
  · intro l hl
    rw [hl] at hlist
    refine ⟨_, hlist, fun hnone => by rw [hnone]; rfl, ?_⟩
    intro q hq
    have hmethod := Moment.method_of_list hn hl hq
    obtain ⟨-, hflight⟩ := (Moment.answered_iff ho q).mp hq
    rw [hm] at hflight
    obtain ⟨p, hp, rfl⟩ := List.mem_map.mp hflight
    obtain ⟨before, x, after, hsplit, ⟨hqueued, hframe, hwants⟩, hsince⟩ :=
      in_flight_since run p hp
    have hx : x ∈ run.history := by simp [hsplit]
    refine ⟨hmethod, before, x, after, hsplit, ⟨hqueued, hframe, ?_⟩, hsince⟩
    rw [hq]
    exact hwants.window hmethod (run_fits hpage hqueries x hx) rfl
  · intro q
    rw [← hm]
    exact Moment.answered_iff ho q
  · intro hother
    rw [hlist, hm]
    split
    · rename_i l hl
      exact absurd hl (hother l)
    · rfl

/-- Three windows of the list are asked for: by a command, by a request that gives its parameters as
text, and for the entry of a change. The second is answered first. -/
def windowsInFlight : Run Unit :=
  ⟨5, 1000, false, .live,
    [(0, .opened),
     (1, .receive <| Value.text <| .object
       [("id", .integer 0),
        ("result", .object [("actions", .array [.object [("method", .string "list")]])])]),
     (2, .execute (.list ⟨some 3, some 4294967296, none⟩)),
     (3, .request "list" (.text "[2, 1]") none),
     (4, .receive <| Value.text <| .object
       [("method", .string "onchange"), ("params", .object [("id", .integer 7)])]),
     (5, .receive <| Value.text <| .object
       [("id", .integer 2), ("result", .object [("count", .integer 1)])])]⟩

def firstAnsweredLast : Moment Unit :=
  ⟨windowsInFlight.player, 6, .receive <| Value.text <| .object
    [("id", .integer 1), ("result", .object [("count", .integer 9)])]⟩

/-- Each answer brings the window of its own request. -/
theorem answers_bring_their_own_windows :
    windowsInFlight.pageSize < bound32 ∧
      (∀ c ∈ windowsInFlight.calls, ∀ query, c.2 = .execute (.list query) → query.Fits) ∧
      windowsInFlight.player.cache.list.map (·.cursor) = some (some ⟨2, 1⟩) ∧
      ∃ q cursor, firstAnsweredLast.answered? = some q ∧ q.id = 1 ∧
        cursor = some ⟨3, 4294967296⟩ ∧
        firstAnsweredLast.after.cache.list.map (fun w => (w.cursor, w.count)) = some (cursor, 9) ∧
        Since
          (fun x => q ∈ x.queued ∧ Rpc.encode q ∈ x.after.rpc.outbox ∧ x.AsksForWindow q cursor)
          (fun x => x.settles q.id = false) windowsInFlight.history := by
  have hpage : windowsInFlight.pageSize < bound32 := by decide
  have hqueries : ∀ c ∈ windowsInFlight.calls, ∀ query, c.2 = .execute (.list query) →
      query.Fits := by
    have hfits : Wire.WindowQuery.Fits ⟨some 3, some 4294967296, none⟩ := by
      constructor <;> simp [bound32, bound64]
    simp [windowsInFlight, hfits]
  obtain ⟨hcached, hkept, hlist, hid⟩ :
      windowsInFlight.player.cache.list.map (·.cursor) = some (some ⟨2, 1⟩) ∧
        firstAnsweredLast.after.cache.list.map (fun w => (w.cursor, w.count)) =
          some (some ⟨3, 4294967296⟩, 9) ∧
        (firstAnsweredLast.content?.any fun
          | .list _ => true
          | _ => false) = true ∧
        firstAnsweredLast.answered?.map (·.id) = some 1 := by decide +kernel
  have hbefore : firstAnsweredLast.before = windowsInFlight.player := by
    simp only [firstAnsweredLast]
  obtain ⟨hwindow, -⟩ :=
    list_comes_with_its_window windowsInFlight hpage hqueries firstAnsweredLast hbefore
  obtain ⟨q, hq, hone⟩ := Option.map_eq_some_iff.mp hid
  cases hcontent : firstAnsweredLast.content? with
  | none =>
    rw [hcontent] at hlist
    cases hlist
  | some content =>
    cases content with
    | list l =>
      obtain ⟨cursor, hcache, -, hsince⟩ := hwindow l hcontent
      rw [hcache] at hkept
      have hcursor : cursor = some ⟨3, 4294967296⟩ := (Prod.mk.inj (Option.some.inj hkept)).1
      refine ⟨hpage, hqueries, hcached, q, cursor, hq, hone, hcursor, ?_, ?_⟩
      · rw [hcache, hkept, hcursor]
      · exact (hsince q hq).2
    | _ =>
      rw [hcontent] at hlist
      cases hlist

end Player
end Session
end MediaRemote
