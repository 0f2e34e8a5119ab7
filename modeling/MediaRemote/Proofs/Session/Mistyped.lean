import MediaRemote.Proofs.Session.Ineffective
import MediaRemote.Proofs.Wire.Changes

namespace MediaRemote

open Json (Value)

/-- The message without those members of its object that are under these keys, and none of which
suits its field. -/
structure Wire.Message.Pruned (keys : List String) (message pruned : Wire.Message) : Prop where
  id : pruned.id = message.id
  method : pruned.method = message.method
  error : pruned.error = message.error
  payload : ∃ members, message.payload = some (.object members) ∧
    pruned.payload = some (.object (Wire.Change.without keys members)) ∧
    ∀ m ∈ members, m.1 ∈ keys → Wire.Change.Mistyped m.1 m.2

namespace Session

open Wire (Change Message)

variable {ρ : Type}

/-- Both answer the same request, if any. -/
theorem Rpc.correlated_pruned (r : Rpc ρ) {keys : List String} {message pruned : Message}
    (h : message.Pruned keys pruned) :
    (r.correlated pruned).request = (r.correlated message).request ∧
      (r.correlated message).message.Pruned keys (r.correlated pruned).message := by
  obtain ⟨hid, hmethod, herror, hpayload⟩ := h
  have hsame : pruned.requestId = message.requestId := by rw [Message.requestId, hid]; rfl
  unfold Rpc.correlated
  rw [hsame]
  cases message.requestId.bind r.find? with
  | none => exact ⟨rfl, hid, hmethod, herror, hpayload⟩
  | some p => exact ⟨rfl, hid, rfl, herror, hpayload⟩

namespace Player

theorem run_onchange (run : Run ρ) : run.player.routes.resolve "onchange" = some .change := by
  rw [(run_negotiated run).routes, resolve_routesFor]
  rfl

/-- The slot for changes reads the same from both. -/
theorem contentOf_pruned {p : Player ρ} {i j : Inbound ρ} {keys : List String}
    (hroute : p.routes.resolve "onchange" = some .change)
    (hmethod : i.message.method = some "onchange") (h : i.message.Pruned keys j.message) :
    p.contentOf j = p.contentOf i := by
  obtain ⟨-, hsame, herror, members, hi, hj, htyped⟩ := h
  unfold contentOf
  rw [herror, hsame, hmethod, Option.bind_some, hroute, hi, hj]
  simp only [Option.bind_some, Slot.read, Change.view_without htyped]

theorem taken_pruned {p : Player ρ} {i j : Inbound ρ} {keys : List String}
    (hroute : p.routes.resolve "onchange" = some .change)
    (hmethod : i.message.method = some "onchange") (h : i.message.Pruned keys j.message)
    (hrequest : j.request = i.request) (now : Nat) : p.taken now j = p.taken now i := by
  rw [taken, taken, contentOf_pruned hroute hmethod h, hrequest]

/-- A change is read from every object, each of its fields from the value under its own key alone
and absent only if that value does not suit it; and unless messages are forwarded, receiving a
change leads to the same state, with the same frames queued, and to the same events as receiving it
without any of the members that do not suit their fields. -/
theorem mistyped_fields_count_as_absent :
    (∀ members, ∃ c, Change.decoder.view (.object members) = some c ∧ c.ReadFrom members) ∧
    (∀ members others : List (String × Value),
      (∀ f ∈ Change.fields, Dictionary.find? f.name others = Dictionary.find? f.name members) →
      Change.decoder.view (.object others) = Change.decoder.view (.object members)) ∧
    ∀ (run : Run ρ) (now : Nat) (text text' : String) (message pruned : Message)
      (keys : List String),
      run.forwards = false →
      Message.decoder.parse text = .ok message → Message.decoder.parse text' = .ok pruned →
      message.Pruned keys pruned →
      (run.player.rpc.correlated message).message.method = some "onchange" →
      (receive now text' run.player).1 = (receive now text run.player).1 ∧
      eventsIn (receive now text' run.player).2 = eventsIn (receive now text run.player).2 := by
  refine ⟨fun members => ⟨_, Change.view_object members, Change.ofValues_readFrom members⟩,
    fun members others => Change.view_object_congr, ?_⟩
  intro run now text text' message pruned keys hforwards hm hm' hpruned hmethod
  have hr := run.player.rpc.receive_correlated hm
  have hr' := run.player.rpc.receive_correlated hm'
  obtain ⟨hrequest, hinbound⟩ := run.player.rpc.correlated_pruned hpruned
  have hid : pruned.requestId = message.requestId := by rw [Message.requestId, hpruned.id]; rfl
  rw [hid] at hr'
  have hquiet (i : Inbound ρ) : run.player.forwarded i = [] := by
    rw [forwarded, (run_make run).forwards.trans hforwards]
    rfl
  have htaken := taken_pruned
    (p := { run.player with rpc := run.player.rpc.without message.requestId }) (run_onchange run)
    hmethod hinbound hrequest now
  have htold : errorTold (run.player.rpc.correlated pruned) =
      errorTold (run.player.rpc.correlated message) := by
    rw [errorTold, errorTold, hinbound.error, hrequest]
  constructor
  · rw [(doing_receive hr' now).player, (doing_receive hr now).player, htaken]
  · rw [receive_events hr', receive_events hr, htaken, htold, hquiet, hquiet]

def listening : Run Unit := ⟨5, 1000, false, .live, [(0, .opened)]⟩

def untidy : List (String × Value) :=
  [("duration", .string "long"), ("id", .integer 2), ("level", .integer 9223372036854775808),
   ("next", .bool true), ("state", .integer 1), ("volume", .integer 7)]

def tidy : List (String × Value) := [("id", .integer 2), ("volume", .integer 7)]

def onchange (members : List (String × Value)) : String :=
  Value.text <| .object [("method", .string "onchange"), ("params", .object members)]

set_option maxRecDepth 2000 in
/-- Only the entry and its volume are taken in. -/
theorem untidy_change_is_taken_in :
    (receive 1 (onchange tidy) listening.player).1 =
        (receive 1 (onchange untidy) listening.player).1 ∧
      eventsIn (receive 1 (onchange tidy) listening.player).2 =
        eventsIn (receive 1 (onchange untidy) listening.player).2 ∧
      (receive 1 (onchange untidy) listening.player).1.cache.id = some 2 ∧
      (receive 1 (onchange untidy) listening.player).1.cache.next = none ∧
      (receive 1 (onchange untidy) listening.player).1.cache.volume = some 7 := by
  have hparse : Message.decoder.parse (onchange untidy) =
      .ok ⟨none, some "onchange", none, none, some (.object untidy)⟩ := by cbv
  have hparse' : Message.decoder.parse (onchange tidy) =
      .ok ⟨none, some "onchange", none, none, some (.object tidy)⟩ := by cbv
  have hpruned : Message.Pruned ["duration", "level", "next", "state"]
      ⟨none, some "onchange", none, none, some (.object untidy)⟩
      ⟨none, some "onchange", none, none, some (.object tidy)⟩ := by
    refine ⟨rfl, rfl, rfl, untidy, rfl, rfl, ?_⟩
    simp [untidy, Change.Mistyped, IsSigned64, bound63]
  have hmethod : (listening.player.rpc.correlated
      ⟨none, some "onchange", none, none, some (.object untidy)⟩).message.method =
        some "onchange" := by
    simp [Rpc.correlated, Message.requestId]
  obtain ⟨-, -, hsame⟩ := mistyped_fields_count_as_absent (ρ := Unit)
  obtain ⟨hplayer, hevents⟩ :=
    hsame listening 1 _ _ _ _ _ rfl hparse hparse' hpruned hmethod
  exact ⟨hplayer, hevents, by decide +kernel⟩

end Player
end Session
end MediaRemote
