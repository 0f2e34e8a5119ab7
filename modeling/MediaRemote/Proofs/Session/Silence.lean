import MediaRemote.Proofs.Session.Continuations
import MediaRemote.Proofs.Session.Moments

namespace MediaRemote.Session

open Json (Value)
open Step

variable {ρ : Type}

namespace Rpc

/-- Closed, with nothing in flight and nothing to be taken; the next request gets the number `n`. -/
def silent (n : Nat) : Rpc ρ := ⟨n, false, [], []⟩

/-- While closed nothing is sent. -/
theorem Extends.eq_of_closed {r r' : Rpc ρ} (h : r.Extends r') (hc : r.isOpen = false) :
    r' = r := by
  obtain ⟨ps, -, ho, -, rfl⟩ := h
  have hnone : ps = [] := by
    by_contra hsome
    rw [ho hsome] at hc
    cases hc
  rw [hnone, extend_nil]

end Rpc

namespace Player

def Call.revives : Call ρ → Bool
  | .opened | .resetSession => true
  | _ => false

/-- Silence is kept by every call that does not end it, whatever else of the player changes. -/
theorem perform_silent {p : Player ρ} {n : Nat} (hp : p.rpc = .silent n) (now : Nat) {c : Call ρ}
    (hc : c.revives = false) :
    (p.perform now c).player.rpc = .silent n ∧ (p.perform now c).id = none := by
  have hclosed : p.rpc.isOpen = false := by rw [hp]; rfl
  cases c with
  | opened | resetSession => cases hc
  | closed =>
    refine ⟨?_, rfl⟩
    simp only [perform, Done.of, closed_rpc, hp]
    rfl
  | request method params reply =>
    -- what cannot be read is refused, and what can be read is not sent
    have hunsent : p.rpc.send method params reply = .ok (none, p.rpc) ∨
        ∃ cause, p.rpc.send method params reply = .error cause := by
      cases hv : params.toValue with
      | error fault => exact .inr ⟨_, Rpc.send_error hv method reply⟩
      | ok value => exact .inl (Rpc.send_closed hv hclosed method reply)
    obtain ⟨hsame, hid⟩ := request_unsent hunsent now
    exact ⟨by rw [hsame, hp], hid⟩
  | execute command =>
    have hsame := (asks_execute command p).rpc.eq_of_closed hclosed
    exact ⟨hsame.trans hp, rfl⟩
  | askPosition =>
    have hsame := (asks_send .getPosition .null p).rpc.eq_of_closed hclosed
    exact ⟨hsame.trans hp, rfl⟩
  | tick =>
    refine ⟨?_, rfl⟩
    simp only [perform, Done.of, onlyIf]
    split <;> exact hp
  | receive text =>
    obtain ⟨answered, hextends⟩ := receive_extends p now text
    rw [hp] at hextends
    exact ⟨hextends.eq_of_closed rfl, rfl⟩
  | drain =>
    refine ⟨?_, rfl⟩
    simp only [perform, Done.of, drain, Rpc.drain, hp]
    rfl

section Runs

variable {p : Player ρ} {n : Nat} {calls : List (Nat × Call ρ)}

theorem moments_silent (hp : p.rpc = .silent n) (hcalls : ∀ c ∈ calls, c.2.revives = false) :
    (∀ m ∈ History.moments (fun now c p => (perform now p c).player) p calls,
      m.before.rpc = .silent n ∧ (Moment.after m).rpc = .silent n ∧ (Moment.done m).id = none) ∧
    (History.stateAfter (fun now c p => (perform now p c).player) p calls).rpc = .silent n := by
  induction calls generalizing p with
  | nil => exact ⟨by simp [History.moments], hp⟩
  | cons call calls ih =>
    obtain ⟨hfirst, hcalls⟩ := List.forall_mem_cons.mp hcalls
    obtain ⟨hnext, hid⟩ := perform_silent hp call.1 hfirst
    obtain ⟨hrest, hend⟩ := ih hnext hcalls
    refine ⟨?_, hend⟩
    rw [History.moments, List.forall_mem_cons]
    exact ⟨⟨hp, hnext, hid⟩, hrest⟩

end Runs

/-- Closing a closed player again changes nothing and tells nothing. -/
theorem closed_closed (p : Player ρ) : closed (closed p).1 = ((closed p).1, []) := by
  have hclosed : (closed p).1.isConnected = false := by
    simp only [isConnected, closed_rpc]
    rfl
  rw [closed_eq (closed p).1, hclosed]
  simp [closed_eq, Rpc.reset]

/-- Opening a player that was silent asks for its capabilities, and for nothing else. -/
theorem opened_silent {p : Player ρ} {n : Nat} (hp : p.rpc = .silent n) :
    (opened p).1.rpc =
      ⟨n + 1, true, [⟨.new n "capabilities" .null, none⟩],
        [Rpc.encode (.new n "capabilities" .null)]⟩ := by
  rw [opened_rpc, hp]
  rfl

/-- Closing leaves nothing of what was asked or negotiated, keeps the numbering, and of the cache
changes the playback state alone. It is told if the socket was open, and closing again does nothing.
From then on until the socket opens, or the session is reset, nothing is in flight, nothing is
queued, and no identifier is given out, whatever is called and whatever arrives. The first request
after that is the question for the capabilities, with the identifier that was next when the socket
closed. -/
theorem closed_player_is_silent (run : Run ρ) (now : Nat) (calls : List (Nat × Call ρ))
    (hcalls : ∀ c ∈ calls, c.2.revives = false) :
    closed run.player =
      ({ run.player with
          rpc := .silent run.player.rpc.nextId
          routes := .permanent
          capabilities := .empty
          timer := none
          cache := if run.player.isConnected then
              { run.player.cache with state := .disconnected }
            else run.player.cache },
        if run.player.isConnected ∧ run.observer = .live then
          [.event (.stateChanged (some (-1)) .disconnected), .event .disconnected]
        else []) ∧
    closed (closed run.player).1 = ((closed run.player).1, []) ∧
    ∃ later : List (Moment ρ), later.map (fun m => (m.now, m.input)) = calls ∧
      ({ run with calls := run.calls ++ (now, .closed) :: calls } : Run ρ).history =
        run.history ++ ⟨run.player, now, .closed⟩ :: later ∧
      (∀ m ∈ later, m.before.rpc = .silent run.player.rpc.nextId ∧
        m.after.rpc = .silent run.player.rpc.nextId ∧ m.done.id = none) ∧
      (opened ({ run with calls := run.calls ++ (now, .closed) :: calls } : Run ρ).player).1.rpc =
        ⟨run.player.rpc.nextId + 1, true,
          [⟨.new run.player.rpc.nextId "capabilities" .null, none⟩],
          [Rpc.encode (.new run.player.rpc.nextId "capabilities" .null)]⟩ := by
  have hsilent : (closed run.player).1.rpc = .silent run.player.rpc.nextId := closed_rpc _
  obtain ⟨hmoments, hend⟩ := moments_silent hsilent hcalls
  refine ⟨?_, closed_closed _, History.moments _ (closed run.player).1 calls,
    History.moments_inputs .., History.moments_append .., hmoments, opened_silent ?_⟩
  · have hobserver : run.player.observer = run.observer := (run_make run).observer
    rw [← hobserver]
    exact closed_eq run.player
  · rw [Run.player, History.stateAfter_append]
    exact hend

def announcements : List (Nat × Call Unit) :=
  [(1, .receive <| Value.text <| .object
     [("method", .string "capabilities"),
      ("params", .object [("actions",
        .array [.object [("method", .string "status")], .object [("method", .string "list")]])])]),
   (2, .receive <| Value.text <| .object
     [("method", .string "onchange"),
      ("params", .object [("id", .integer 7), ("duration", .integer 180)])])]

def announcedTo : Run Unit := ⟨5, 1000, false, .live, (0, .opened) :: announcements⟩

def calledWhileClosed : List (Nat × Call Unit) :=
  announcements ++
    [(3, .execute (.list .blank)), (4, .execute .load), (5, .request "status" .none (some ())),
     (6, .request "status" (.text "\x7b") none), (1002, .tick), (1002, .askPosition),
     (1003, .closed)]

def closedThen (calls : List (Nat × Call Unit)) : Run Unit :=
  { announcedTo with calls := announcedTo.calls ++ (3, .closed) :: calls }

/-- While the socket was open the announcements led to two requests. Told again after it closed,
they are taken in as before and lead to none. -/
theorem announcements_lead_to_nothing :
    announcedTo.player.rpc.nextId = 3 ∧ announcedTo.player.rpc.pending.length = 3 ∧
      (∀ c ∈ calledWhileClosed, c.2.revives = false) ∧
      (closedThen announcements).player.capabilities.contains .list = true ∧
      (closedThen announcements).player.isPolling = true ∧
      ∃ later, (closedThen calledWhileClosed).history =
          announcedTo.history ++ ⟨announcedTo.player, 3, .closed⟩ :: later ∧
        later.length = 9 ∧ ∀ m ∈ later, (Moment.after m).rpc = .silent 3 := by
  obtain ⟨hnext, hpending, hlist, hpolling⟩ : announcedTo.player.rpc.nextId = 3 ∧
      announcedTo.player.rpc.pending.length = 3 ∧
      (closedThen announcements).player.capabilities.contains .list = true ∧
      (closedThen announcements).player.isPolling = true := by decide +kernel
  have hcalls : ∀ c ∈ calledWhileClosed, c.2.revives = false := by decide
  obtain ⟨-, -, later, hlater, hhistory, hsilent, -⟩ :=
    closed_player_is_silent announcedTo 3 calledWhileClosed hcalls
  refine ⟨hnext, hpending, hcalls, hlist, hpolling, later, hhistory, ?_, ?_⟩
  · exact (List.length_map _).symm.trans (congrArg List.length hlater)
  · intro m hm
    rw [(hsilent m hm).2.1, hnext]

end Player
end MediaRemote.Session
