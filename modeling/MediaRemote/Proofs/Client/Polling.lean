import MediaRemote.Proofs.Client.Runs
import MediaRemote.Proofs.Session.Polls

namespace MediaRemote.Client

open Session (Player PlayerStep)
open Session.Player (Call loops loops_of_poll loops_append momentsBy pollsIn runningTime)
open Step ClientStep

variable {ρ : Type}

def callOf? : Connection.Event → Option (Call ρ)
  | .open => some .opened
  | .text s => some (.receive s)
  | .close => some .closed
  | .error _ => none

/-- The calls of the player in a turn. What it has queued is taken last. -/
def callsIn [Url.Idna] (now : Nat) (i : Input) (c : Client ρ) : List (Call ρ) :=
  match i with
  | .delivery => c.connection.deliver?.elim [] fun e => (callOf? e.1).toList ++ [.drain]
  | .arrival a => (c.connection.arrive now a).event.elim [] fun e => (callOf? e).toList ++ [.drain]
  | .tick => if c.player.timer.any (· ≤ now) then [.tick, .askPosition, .drain] else []
  | .command (.changePlayer url) =>
    match Endpoint.resolve url c.origin with
    | .ok _ => [.resetSession, .drain]
    | .error _ => [.drain]
  | .command .reconnect => [.drain]
  | .command .quit | .commandsEnded => [.closed]
  | .command command => [.execute command, .drain]

def calledAt (now : Nat) (p : Player ρ) (calls : List (Call ρ)) : Player ρ :=
  p.endBy .tolerant (calls.map (now, ·))

theorem handle_player (now : Nat) (e : Connection.Event) (c : Client ρ) :
    (inOrder [handle now e, flush] c).1.player =
      calledAt now c.player ((callOf? e).toList ++ [.drain]) := by
  cases e <;> rfl

theorem tick_player [Url.Idna] (now : Nat) (c : Client ρ) :
    (tick now c).1.player = calledAt now c.player (callsIn now .tick c) := by
  simp only [tick, callsIn]
  cases ht : c.player.timer.any (· ≤ now) with
  | false => rfl
  | true =>
    have hcalls : calledAt now c.player [.tick, .askPosition, .drain] =
        (Player.askPosition (c.player.performBy .tolerant now .tick).player).1.drain.2 := rfl
    rw [if_pos rfl, if_pos rfl, hcalls, Player.performBy_tick ht]
    rfl

theorem turn_player [Url.Idna] (now : Nat) (i : Input) (c : Client ρ) :
    (turn now i c).client.player = calledAt now c.player (callsIn now i c) := by
  cases i with
  | delivery =>
    simp only [turn, Turn.of, deliver, callsIn]
    cases c.connection.deliver? with
    | none => rfl
    | some e => exact handle_player now e.1 { c with connection := e.2 }
  | arrival a =>
    simp only [turn, Turn.of, arrive, callsIn]
    cases (c.connection.arrive now a).event with
    | none => rfl
    | some e =>
      exact handle_player now e { c with connection := (c.connection.arrive now a).connection }
  | tick => exact tick_player now c
  | command command =>
    cases command with
    | changePlayer url =>
      have hflushed : (turn now (.command (.changePlayer url)) c).client.player =
          (changePlayer url c).1.player.drain.2 := rfl
      rw [hflushed]
      simp only [callsIn, changePlayer]
      cases Endpoint.resolve url c.origin <;> rfl
    | _ => rfl
  | commandsEnded => rfl

/-- Within a turn, and at one time, the position is asked for after a tick and nowhere else. -/
theorem turn_loops [Url.Idna] (now : Nat) (i : Input) (c : Client ρ) :
    loops (c.player.momentsBy .tolerant ((callsIn now i c).map (now, ·))) = true := by
  have hevent (p : Player ρ) (e : Connection.Event) :
      loops (p.momentsBy .tolerant (((callOf? e).toList ++ [Call.drain]).map (now, ·))) = true := by
    cases e <;> rfl
  cases i with
  | delivery =>
    simp only [callsIn]
    cases c.connection.deliver? with
    | none => rfl
    | some e => exact hevent c.player e.1
  | arrival a =>
    simp only [callsIn]
    cases (c.connection.arrive now a).event with
    | none => rfl
    | some e => exact hevent c.player e
  | tick =>
    simp only [callsIn]
    cases ht : c.player.timer.any (· ≤ now) with
    | false => rfl
    | true =>
      have hf : Player.Moment.fires (⟨c.player, now, .tick⟩ : Player.Moment ρ) = true := ht
      rw [if_pos rfl]
      exact loops_of_poll hf
        (n := ⟨(c.player.performBy .tolerant now .tick).player, now, .askPosition⟩) rfl rfl _
  | command command =>
    cases command with
    | changePlayer url =>
      simp only [callsIn]
      cases Endpoint.resolve url c.origin <;> rfl
    | _ => rfl
  | commandsEnded => rfl

def Run.calls [Url.Idna] (r : Run ρ) : List (Nat × Call ρ) :=
  r.taken.flatMap fun t => (callsIn t.now t.input t.before).map (t.now, ·)

/-- The player goes along the calls of a run, among which the position is asked for after a tick and
nowhere else. Their times are those of turns. -/
structure Run.Follows [Url.Idna] (r : Run ρ) (p : Player ρ) (turns : List Nat) : Prop where
  player : r.client.player = p.endBy .tolerant r.calls
  loops : loops (p.momentsBy .tolerant r.calls) = true
  times : ∀ x ∈ r.calls, x.1 ∈ turns
  ordered : turns.Pairwise (· ≤ ·) → (r.calls.map (·.1)).Pairwise (· ≤ ·)

theorem Run.Follows.step [Url.Idna] {r : Run ρ} {p : Player ρ} {turns : List Nat}
    (h : r.Follows p turns) (now : Nat) (i : Input) :
    (r.step now i).Follows p (turns ++ [now]) := by
  unfold Run.step
  cases r.goesOn with
  | false =>
    refine ⟨h.player, h.loops, ?_, ?_⟩
    · intro x hx
      exact List.mem_append_left _ (h.times x hx)
    · intro ho
      exact h.ordered (List.pairwise_append.mp ho).1
  | true =>
    have hcalls : Run.calls ⟨(turn now i r.client).client, r.taken ++ [⟨now, i, r.client⟩],
        (turn now i r.client).goesOn⟩ = r.calls ++ (callsIn now i r.client).map (now, ·) := by
      simp [Run.calls]
    have hturn := turn_player now i r.client
    have hloops := turn_loops now i r.client
    rw [calledAt, h.player] at hturn
    rw [h.player] at hloops
    simp only [if_true, Taken.turn]
    constructor
    case player =>
      rw [hcalls, Player.endBy_append]
      exact hturn
    case loops => rw [hcalls, Player.momentsBy_append, loops_append h.loops, hloops]
    case times =>
      intro x hx
      rw [hcalls] at hx
      rcases List.mem_append.mp hx with hx | hx
      · exact List.mem_append_left _ (h.times x hx)
      · obtain ⟨c, -, rfl⟩ := List.mem_map.mp hx
        simp
    case ordered =>
      intro ho
      obtain ⟨hturns, -, hlast⟩ := List.pairwise_append.mp ho
      rw [hcalls, List.map_append, List.map_map, List.pairwise_append]
      refine ⟨h.ordered hturns, ?_, ?_⟩
      · simp
      · intro time htime later hlater
        obtain ⟨x, hx, rfl⟩ := List.mem_map.mp htime
        obtain ⟨c, -, rfl⟩ := List.mem_map.mp hlater
        exact hlast x.1 (h.times x hx) now (by simp)

theorem run_follows [Url.Idna] (c : Client ρ) (inputs : List (Nat × Input)) :
    (run c inputs).Follows c.player (inputs.map (·.1)) := by
  induction inputs using List.reverseRecOn with
  | nil => exact ⟨rfl, rfl, by simp [run, Run.calls], fun _ => .nil⟩
  | append_singleton inputs i ih =>
    rw [run_concat, List.map_append]
    exact ih.step i.1 i.2

/-- The calls of a run of the loop are those of a run of its player, so for every whole interval of
the time for which the timer ran there is one poll at most, and there are no other questions for the
position. -/
theorem loop_polls_once_an_interval [Url.Idna] {s : Settings} {observer : Session.Observer}
    {c : Client ρ} (h : Starts s observer c) (hp : 0 < s.pollInterval) {inputs : List (Nat × Input)}
    (ho : (inputs.map (·.1)).Pairwise (· ≤ ·)) :
    ∃ r : Player.Run ρ, r.pollInterval = s.pollInterval ∧ r.InOrder ∧
      r.calls = (run c inputs).calls ∧ r.player = (run c inputs).client.player ∧
      loops r.history = true ∧
      ∀ time, (pollsIn r.history).countP (·.now ≤ time) ≤
        runningTime .tolerant r.history time / r.pollInterval := by
  have hf := run_follows c inputs
  have hstart : c.player = playerOf s observer := h.fresh.1
  rw [hstart] at hf
  let r : Player.Run ρ :=
    ⟨s.pageSize, s.pollInterval, s.forwardMessages, observer, (run c inputs).calls⟩
  have hhistory : r.history = (playerOf s observer).momentsBy .tolerant (run c inputs).calls :=
    r.historyBy_tolerant.symm
  have hplayer : r.player = (playerOf s observer).endBy .tolerant (run c inputs).calls :=
    r.playerBy_tolerant.symm
  have horder : r.InOrder := hf.ordered ho
  refine ⟨r, rfl, horder, rfl, hplayer.trans hf.player.symm, ?_, ?_⟩
  · rw [hhistory]
    exact hf.loops
  · intro time
    rw [← r.historyBy_tolerant]
    exact Player.polls_le_running .tolerant hp horder time

end MediaRemote.Client
