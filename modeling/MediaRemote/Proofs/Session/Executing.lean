import MediaRemote.Proofs.Session.Commands
import MediaRemote.Proofs.Session.Ineffective

namespace MediaRemote.Session.Player

open Json (Value)
open Wire (Action CapabilitySet Message Request)

variable {ρ : Type}

/-- The method and the parameters that a command becomes if the player can do what it takes, and the
slot for the answer. To queue an entry goes before changing the media. -/
inductive Becomes (can : Action → Prop) (pageSize : Nat) : Command → String → Value → Slot → Prop
  | play (h : can .play ∨ can .pause) : Becomes can pageSize .play "play" .null .state
  | pause (h : can .pause) : Becomes can pageSize .pause "pause" .null .state
  | stop (h : can .stop) : Becomes can pageSize .stop "stop" .null .state
  | next (h : can .next) : Becomes can pageSize .next "next" .null .state
  | volumeStep (h : can .volume) (step : Int) (hs : step ≠ 0) :
    Becomes can pageSize (.volume (some step)) "volume" (.object [("step", .integer step)]) .volume
  | volumeAsked (h : can .volume) (step : Option Int) (hs : step = none ∨ step = some 0) :
    Becomes can pageSize (.volume step) "volume" .null .volume
  | shuffle (h : can .options) (on : Bool) :
    Becomes can pageSize (.shuffle on) "options" (.object [("random", .bool on)]) .options
  | loop (h : can .options) (on : Bool) :
    Becomes can pageSize (.loop on) "options" (.object [("loop", .bool on)]) .options
  | filter (h : can .filter) (params : Value) :
    Becomes can pageSize (.filter params) "filter" params .filter
  | queue (h : can .setNext) (media entry : Value) (hm : media.member? "next" = some entry)
    (hp : entry ≠ .null) :
    Becomes can pageSize (.change media) "setnext" (.object [("id", entry)]) .next
  | change (h : can .change) (media new : Value) (hm : media.member? "media" = some new)
    (hp : new ≠ .null)
    (hn : ∀ entry, media.member? "next" = some entry → entry ≠ .null → ¬ can .setNext) :
    Becomes can pageSize (.change media) "change" media .change
  | list (h : can .list) (query : Wire.WindowQuery) :
    Becomes can pageSize (.list query) "list"
      (.object [("first", .integer (query.resolve pageSize).first),
        ("maxitems", .integer (query.resolve pageSize).maxitems)])
      .list

variable {p : Player ρ} {command : Command} {method : String} {params : Value} {slot : Slot}

def Can (p : Player ρ) (a : Action) : Prop := p.capabilities.contains a = true

theorem bind_present {o : Option Value} {v : Value} :
    o.bind Value.present = some v ↔ o = some v ∧ v ≠ .null := by
  have hpresent (w : Value) : w.present = some v ↔ w = v ∧ v ≠ .null := by
    cases w <;> simp [Value.present, Value.isNull] <;> grind
  cases o with
  | none => simp
  | some w => simpa using hpresent w

theorem gated_eq_some {gate : List Action} {a : Action} {q : Action × Value} :
    p.gated gate a params = some q ↔ (∃ b ∈ gate, p.Can b) ∧ q = (a, params) := by
  have hany : p.capabilities.containsAny gate = true ↔ ∃ b ∈ gate, p.Can b := by
    simp [CapabilitySet.containsAny, Can]
  unfold gated
  rw [← hany, Option.ite_none_right_eq_some, Option.some.injEq, eq_comm (a := (a, params))]

theorem queueable_eq_some {media entry : Value} :
    p.queueable media = some entry ↔
      p.Can .setNext ∧ media.member? "next" = some entry ∧ entry ≠ .null := by
  unfold queueable
  rw [Option.filter_eq_some_iff, bind_present]
  exact and_comm

theorem volumeParams_step {step : Int} (h : step ≠ 0) :
    volumeParams (some step) = .object [("step", .integer step)] := by
  simp [volumeParams, Option.filter, h]

theorem volumeParams_asked {step : Option Int} (h : step = none ∨ step = some 0) :
    volumeParams step = .null := by
  rcases h with rfl | rfl <;> rfl

/-- What a command becomes is what it asks for. -/
theorem Becomes.question (h : Becomes p.Can p.pageSize command method params slot) :
    ∃ a : Action, a.method = method ∧ p.question command = some (a, params) := by
  have hgated {gate : List Action} {b : Action} (hb : b ∈ gate) (hc : p.Can b) (a : Action)
      (params : Value) : p.gated gate a params = some (a, params) :=
    gated_eq_some.mpr ⟨⟨b, hb, hc⟩, rfl⟩
  cases h with
  | play h =>
    refine ⟨.play, rfl, ?_⟩
    rcases h with h | h
    · exact hgated (by simp) h .play .null
    · exact hgated (by simp) h .play .null
  | pause h => exact ⟨.pause, rfl, hgated (by simp) h .pause .null⟩
  | stop h => exact ⟨.stop, rfl, hgated (by simp) h .stop .null⟩
  | next h => exact ⟨.next, rfl, hgated (by simp) h .next .null⟩
  | volumeStep h step hs =>
    refine ⟨.volume, rfl, ?_⟩
    rw [← volumeParams_step hs]
    exact hgated (by simp) h .volume _
  | volumeAsked h step hs =>
    refine ⟨.volume, rfl, ?_⟩
    rw [← volumeParams_asked hs]
    exact hgated (by simp) h .volume _
  | shuffle h on => exact ⟨.options, rfl, hgated (by simp) h .options _⟩
  | loop h on => exact ⟨.options, rfl, hgated (by simp) h .options _⟩
  | filter h params => exact ⟨.filter, rfl, hgated (by simp) h .filter params⟩
  | queue h media entry hm hp =>
    refine ⟨.setNext, rfl, ?_⟩
    simp only [Player.question, queueable_eq_some.mpr ⟨h, hm, hp⟩]
  | change h _ new hm hp hn =>
    refine ⟨.change, rfl, ?_⟩
    have hqueue : p.queueable params = none := by
      rw [Option.eq_none_iff_forall_ne_some]
      intro entry he
      obtain ⟨hc, hm, hp⟩ := queueable_eq_some.mp he
      exact hn entry hm hp hc
    have hnew : (params.member? "media").bind Value.present = some new :=
      bind_present.mpr ⟨hm, hp⟩
    simp only [Player.question, hqueue, hnew, Option.isSome_some, if_true]
    exact hgated (by simp) h .change params
  | list h query =>
    refine ⟨.list, rfl, ?_⟩
    exact if_pos h

/-- A gated command asks for nothing else. -/
theorem becomes_of_question (hg : command.isGated = true) {q : Action × Value}
    (h : p.question command = some q) :
    ∃ slot, Becomes p.Can p.pageSize command q.1.method q.2 slot := by
  have hgated {a b : Action} {params : Value} (h : p.gated [b] a params = some q) :
      p.Can b ∧ q = (a, params) := by
    simpa using gated_eq_some.mp h
  cases command with
  | play =>
    obtain ⟨hc, rfl⟩ := gated_eq_some.mp h
    exact ⟨.state, .play (by simpa using hc)⟩
  | pause =>
    obtain ⟨hc, rfl⟩ := hgated h
    exact ⟨.state, .pause hc⟩
  | stop =>
    obtain ⟨hc, rfl⟩ := hgated h
    exact ⟨.state, .stop hc⟩
  | next =>
    obtain ⟨hc, rfl⟩ := hgated h
    exact ⟨.state, .next hc⟩
  | volume step =>
    obtain ⟨hc, rfl⟩ := hgated h
    refine ⟨.volume, ?_⟩
    by_cases hs : step = none ∨ step = some 0
    · rw [volumeParams_asked hs]
      exact .volumeAsked hc step hs
    · obtain ⟨hsome, hzero⟩ := not_or.mp hs
      obtain ⟨n, rfl⟩ := Option.ne_none_iff_exists'.mp hsome
      have hn : n ≠ 0 := fun hn => hzero (congrArg some hn)
      rw [volumeParams_step hn]
      exact .volumeStep hc n hn
  | shuffle on =>
    obtain ⟨hc, rfl⟩ := hgated h
    exact ⟨.options, .shuffle hc on⟩
  | loop on =>
    obtain ⟨hc, rfl⟩ := hgated h
    exact ⟨.options, .loop hc on⟩
  | filter params =>
    obtain ⟨hc, rfl⟩ := hgated h
    exact ⟨.filter, .filter hc params⟩
  | change media =>
    simp only [question] at h
    split at h
    · rename_i entry hentry
      obtain ⟨hc, hm, hp⟩ := queueable_eq_some.mp hentry
      obtain rfl := Option.some.inj h
      exact ⟨.next, .queue hc media entry hm hp⟩
    · rename_i hnone
      split at h
      · rename_i hsome
        obtain ⟨new, hnew⟩ := Option.isSome_iff_exists.mp hsome
        obtain ⟨hm, hp⟩ := bind_present.mp hnew
        obtain ⟨hc, rfl⟩ := hgated h
        refine ⟨.change, .change hc media new hm hp ?_⟩
        intro entry hm hp hc
        rw [queueable_eq_some.mpr ⟨hc, hm, hp⟩] at hnone
        cases hnone
      · cases h
  | list query =>
    simp only [question] at h
    split at h
    · rename_i hc
      obtain rfl := Option.some.inj h
      exact ⟨.list, .list hc query⟩
    · cases h
  | about | load | changePlayer | reconnect | quit => cases hg

/-- The answer to what a command becomes is routed to its slot. -/
theorem Becomes.route (h : Becomes p.Can p.pageSize command method params slot)
    {d : Option Wire.Descriptor} (hn : Negotiated d p) : p.routes.resolve method = some slot := by
  have hcan (a : Action) : p.Can a ↔ (capabilitiesOf d).contains a = true := by
    rw [Can, hn.capabilities]
  have hown {a : Action} {slot : Slot} (hr : routesOf a = [(a, slot)]) (hc : p.Can a) :
      p.routes.resolve a.method = some slot := by
    rw [hn.routes, resolve_own d hr, if_pos ((hcan a).mp hc)]
  have hplaying {a : Action} (ha : a = .play ∨ a = .pause) (hc : p.Can .play ∨ p.Can .pause) :
      p.routes.resolve a.method = some .state := by
    rw [hcan, hcan, ← Bool.or_eq_true] at hc
    rw [hn.routes, resolve_playing d ha, if_pos hc]
  cases h with
  | play h => exact hplaying (.inl rfl) h
  | pause h => exact hplaying (.inr rfl) (.inr h)
  | stop h => exact hown (a := .stop) rfl h
  | next h => exact hown (a := .next) rfl h
  | volumeStep h | volumeAsked h => exact hown (a := .volume) rfl h
  | shuffle h | loop h => exact hown (a := .options) rfl h
  | filter h => exact hown (a := .filter) rfl h
  | queue h => exact hown (a := .setNext) rfl h
  | change h => exact hown (a := .change) rfl h
  | list h => exact hown (a := .list) rfl h

/-- A message that answers a request in flight brings its payload to the slot of the request. -/
theorem content_of_answer (ho : p.rpc.Orderly) {x : Pending ρ} (hx : x ∈ p.rpc.pending)
    (hs : p.routes.resolve x.request.method = some slot) {message : Message}
    (hid : message.requestId = some x.request.id) (he : message.error = none) :
    p.contentOf (p.rpc.correlated message) = message.payload.bind slot.read := by
  have hfound : p.rpc.find? x.request.id = some x :=
    (Rpc.find?_eq_some ho.ordered x.request.id x).mpr ⟨hx, rfl⟩
  have hanswer : p.rpc.correlated message =
      ⟨{ message with method := some x.request.method }, some x.request, x.reply⟩ := by
    simp only [Rpc.correlated, hid, Option.bind_some, hfound]
  rw [hanswer, contentOf, if_pos he]
  simp only [Option.bind_some, hs]
  rfl

/-- While connected a command that becomes a request puts it in flight, under the next identifier,
and its frame behind those to be taken; nothing else changes and nobody is told. -/
theorem Becomes.executed (h : Becomes p.Can p.pageSize command method params slot)
    (hg : command.isGated = true) (hc : p.isConnected = true) :
    execute command p =
      ({ p with rpc := p.rpc.extend [⟨.new p.rpc.nextId method params, none⟩] }, []) := by
  obtain ⟨a, rfl, hq⟩ := h.question
  rw [execute_eq, asking_eq, note_of_gated hg, hq]
  simp [requestFor, hc]

/-- A command that is asked while closed, or becomes nothing, does nothing. -/
theorem executed_idle (hg : command.isGated = true)
    (h : p.isConnected = false ∨
      ∀ method params slot, ¬ Becomes p.Can p.pageSize command method params slot) :
    execute command p = (p, []) := by
  have hnothing : (p.question command).bind p.requestFor = none := by
    rcases h with hc | hnone
    · apply Option.bind_eq_none_iff.mpr
      intro q _
      simp [requestFor, hc]
    · cases hq : p.question command with
      | none => rfl
      | some q =>
        obtain ⟨slot, hb⟩ := becomes_of_question hg hq
        exact absurd hb (hnone _ _ _)
  rw [execute_eq, asking_eq, hnothing, note_of_gated hg]
  simp [Rpc.extend_nil]

/-- A command that an announcement decides becomes one request if it is let through while connected,
and nothing at all otherwise. The request is in flight under the next identifier and its frame is
queued last; nothing else changes and nobody is told. Its method is routed, and an answer brings its
payload to that slot. -/
theorem commands_become_requests (run : Run ρ) (command : Command)
    (hg : command.isGated = true) :
    (∀ method params slot, run.player.isConnected = true →
      Becomes run.player.Can run.player.pageSize command method params slot →
        let q := Request.new run.player.rpc.nextId method params
        let after : Player ρ :=
          { run.player with
            rpc :=
              { run.player.rpc with
                nextId := run.player.rpc.nextId + 1
                pending := run.player.rpc.pending ++ [⟨q, none⟩]
                outbox := run.player.rpc.outbox ++ [Rpc.encode q] } }
        execute command run.player = (after, []) ∧
        after.routes.resolve method = some slot ∧
        ∀ message : Message, message.requestId = some q.id → message.error = none →
          after.contentOf (after.rpc.correlated message) = message.payload.bind slot.read) ∧
    ((run.player.isConnected = false ∨ ∀ method params slot,
        ¬ Becomes run.player.Can run.player.pageSize command method params slot) →
      execute command run.player = (run.player, [])) := by
  refine ⟨?_, executed_idle hg⟩
  intro method params slot hc hb q after
  have hroute : run.player.routes.resolve method = some slot := hb.route (run_negotiated run)
  have hnumbered : Rpc.NumberedFrom run.player.rpc.nextId [(⟨q, none⟩ : Pending ρ)] := rfl
  have horderly : after.rpc.Orderly := (run_tracks run).orderly.extend hnumbered
  have hflight : ⟨q, none⟩ ∈ after.rpc.pending := List.mem_append_right _ (by simp)
  refine ⟨hb.executed hg hc, hroute, ?_⟩
  intro message hid he
  exact content_of_answer horderly hflight hroute hid he

def queueing : Run Unit :=
  ⟨5, 1000, false, .live,
    [(0, .opened),
     (1, .receive <| Value.text <| .object
       [("id", .integer 0), ("result", .object [("actions", .array
         [.object [("method", .string "setnext")], .object [("method", .string "change")]])])])]⟩

def eitherOne : Command :=
  .change (.object [("media", .string "a.flac"), ("next", .integer 4)])

/-- Of the two the entry is queued. -/
theorem entry_goes_before_media :
    eitherOne.isGated = true ∧
      (execute eitherOne queueing.player).1.rpc.pending.map (·.request) =
        queueing.player.rpc.pending.map (·.request) ++
          [.new 1 "setnext" (.object [("id", .integer 4)])] ∧
      (execute eitherOne queueing.player).1.routes.resolve "setnext" = some .next ∧
      (execute eitherOne queueing.player).2 = [] := by
  have hc : queueing.player.isConnected = true := by decide +kernel
  have hid : queueing.player.rpc.nextId = 1 := by decide +kernel
  have hcan : queueing.player.Can .setNext := by
    unfold Can
    decide +kernel
  have hb : Becomes queueing.player.Can queueing.player.pageSize eitherOne "setnext"
      (.object [("id", .integer 4)]) .next := .queue hcan _ (.integer 4) rfl nofun
  obtain ⟨hexecute, hroute, -⟩ :=
    (commands_become_requests queueing eitherOne rfl).1 _ _ _ hc hb
  rw [hexecute]
  exact ⟨rfl, by simp [hid], hroute, rfl⟩

end MediaRemote.Session.Player
