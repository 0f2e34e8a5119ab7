import MediaRemote.Proofs.Session.Pace
import MediaRemote.Proofs.Session.Queued

namespace MediaRemote.Session.Player

open Json (Value)
open Wire (Action)

variable {ρ : Type}

def pollsIn : List (Moment ρ) → List (Moment ρ)
  | [] => []
  | m :: rest => (if m.fires then (rest.head?.filter (·.isPoll)).toList else []) ++ pollsIn rest

def positionsIn (h : List (Moment ρ)) : List Nat :=
  h.flatMap fun m =>
    (m.queued.filter fun q => q.method = Action.getPosition.method).map fun _ => m.now

/-- The loop polls at the very time of a tick, and nobody else asks for the position. -/
def loops : List (Moment ρ) → Bool
  | [] => true
  | m :: rest =>
    if m.fires then
      match rest with
      | n :: rest => n.isPoll && n.now = m.now && loops rest
      | [] => false
    else !m.wantsPosition && loops rest

theorem loops_of_poll {m n : Moment ρ} (hf : m.fires = true) (hp : n.isPoll = true)
    (hn : n.now = m.now) (rest : List (Moment ρ)) : loops (m :: n :: rest) = loops rest := by
  simp [loops, hf, hp, hn]

/-- The last tick of a loop was followed by its poll. -/
theorem loops_append {h : List (Moment ρ)} (hl : loops h = true) (more : List (Moment ρ)) :
    loops (h ++ more) = loops more := by
  induction h using loops.induct with
  | case1 => rfl
  | case2 m hf n rest ih =>
    simp only [loops, hf, if_true, Bool.and_eq_true, decide_eq_true_eq] at hl
    obtain ⟨⟨hpoll, hsame⟩, hrest⟩ := hl
    exact (loops_of_poll hf hpoll hsame _).trans (ih hrest)
  | case3 m hf => simp [loops, hf] at hl
  | case4 m rest hf ih =>
    rw [loops.eq_def] at hl
    simp only [hf, Bool.false_eq_true, if_false, Bool.and_eq_true, Bool.not_eq_true'] at hl
    rw [List.cons_append, loops.eq_def]
    simp [hf, hl.1, ih hl.2]

/-- There is a tick for every poll, and not after it. -/
theorem pollsIn_le_ticks {h : List (Moment ρ)} (ho : (h.map (·.now)).Pairwise (· ≤ ·))
    (time : Nat) : (pollsIn h).countP (·.now ≤ time) ≤ ticksUntil h time := by
  induction h with
  | nil => exact Nat.le_refl 0
  | cons m rest ih =>
    obtain ⟨hm, hrest⟩ := List.pairwise_cons.mp ho
    simp only at hm
    have hticks : ticksUntil (m :: rest) time =
        ticksUntil rest time + if m.fires && m.now ≤ time then 1 else 0 := List.countP_cons ..
    have hfirst : (if m.fires then (rest.head?.filter (·.isPoll)).toList else []).countP
        (·.now ≤ time) ≤ if m.fires && m.now ≤ time then 1 else 0 := by
      cases hf : m.fires with
      | false => simp
      | true =>
        cases hn : rest.head?.filter (·.isPoll) with
        | none => simp
        | some n =>
          have hmem : n ∈ rest := List.mem_of_head? (Option.filter_eq_some_iff.mp hn).1
          have hle := hm n.now (List.mem_map_of_mem hmem)
          by_cases ht : n.now ≤ time
          · have : m.now ≤ time := by omega
            simp [ht, this]
          · simp [ht]
    have := ih hrest
    rw [pollsIn, List.countP_append, hticks]
    omega

theorem polls_le_running (pace : Pace) {run : Run ρ} (hp : 0 < run.pollInterval)
    (ho : run.InOrder) (time : Nat) :
    (pollsIn (run.historyBy pace)).countP (·.now ≤ time) ≤
      runningTime pace (run.historyBy pace) time / run.pollInterval := by
  have hnow : ((run.historyBy pace).map (·.now)).Pairwise (· ≤ ·) := by
    rw [Run.historyBy, momentsBy, History.moments_now]
    exact ho
  have hpolls := pollsIn_le_ticks hnow time
  have hticks := (run_paced pace run ho).bound time
  rw [Nat.le_div_iff_mul_le hp, Nat.mul_comm]
  exact Nat.le_trans (Nat.mul_le_mul_left _ hpolls) hticks

/-- Until this time the timer is awaited and left alone: nothing comes later than a deadline but the
tick that is due, and no deadline is left. -/
structure Attended (time : Nat) (h : List (Moment ρ)) (last : Player ρ) : Prop where
  alone : ∀ m ∈ h, m.decides = false
  past : ∀ m ∈ h, m.now ≤ time
  prompt : ∀ m ∈ h, m.before.timer.all (m.now ≤ ·) = true
  loops : loops h = true
  served : last.timer.all (time < ·) = true

structure Ready (period due : Nat) (p : Player ρ) : Prop where
  orderly : p.rpc.Orderly
  connected : p.isConnected = true
  interval : p.pollInterval = period
  timer : p.timer = some due

namespace Moment

variable {pace : Pace} {m : Moment ρ} {period due : Nat}

theorem afterBy_rpc (pace : Pace) (m : Moment ρ) : (m.afterBy pace).rpc = m.after.rpc := by
  rw [afterBy, performBy_eq]
  rfl

theorem afterBy_orderly (ho : m.before.rpc.Orderly) : (m.afterBy pace).rpc.Orderly := by
  rw [afterBy_rpc]
  exact (perform_holds ho m.now m.input).1

/-- A call that closes the socket decides about the timer. -/
theorem connected_of_alone (hd : m.decides = false) (hc : m.before.isConnected = true) :
    m.after.isConnected = true := by
  obtain ⟨p, now, c⟩ := m
  cases c with
  | opened =>
    simp only [after, done, perform, Done.of, opened_eq]
    rfl
  | closed | resetSession => simp [decides, forgets] at hd
  | request method params reply =>
    rcases request_player p now method params reply with hsame | ⟨value, -, hsent⟩
    · exact (congrArg isConnected hsame).trans hc
    · exact (congrArg isConnected hsent).trans hc
  | execute command => exact (asks_execute command p).rpc.isOpen.trans hc
  | askPosition => exact (asks_send _ _ p).rpc.isOpen.trans hc
  | tick =>
    simp only [after, done, perform, Done.of, Step.onlyIf]
    split <;> exact hc
  | receive text => exact (receive_silent p now text).1.trans hc
  | drain => exact hc

/-- A call that neither decides nor ticks leaves the player ready. -/
theorem ready_of_rest (h : Ready period due m.before) (hd : m.decides = false)
    (hf : m.fires = false) : Ready period due (m.afterBy pace) where
  orderly := afterBy_orderly h.orderly
  connected := by
    rw [isConnected, afterBy_rpc]
    exact connected_of_alone hd h.connected
  interval := (afterBy_pollInterval pace m).trans h.interval
  timer := by
    have hbeats := m.beats pace
    generalize (m.afterBy pace).timer = timer at hbeats ⊢
    cases hbeats with
    | rests => exact h.timer
    | arms | stops | ticks => simp_all

/-- After a tick in time the next deadline is one interval later. -/
theorem ready_of_tick (h : Ready period due m.before) (hd : m.decides = false)
    (hf : m.fires = true) (hnow : m.now = due) : Ready period (due + period) (m.afterBy pace) where
  orderly := afterBy_orderly h.orderly
  connected := by
    rw [isConnected, afterBy_rpc]
    exact connected_of_alone hd h.connected
  interval := (afterBy_pollInterval pace m).trans h.interval
  timer := by
    have hbeats := m.beats pace
    generalize (m.afterBy pace).timer = timer at hbeats ⊢
    cases hbeats with
    | ticks old hd hold hle hf =>
      obtain rfl : old = due := Option.some.inj (hold.symm.trans h.timer)
      rw [hnow, pace.kept, h.interval]
    | arms | stops | rests => simp_all

/-- Where nobody asks for the position no question for it is queued. -/
theorem positions_nil (ho : m.before.rpc.Orderly) (hw : m.wantsPosition = false) :
    (m.queued.filter fun q => q.method = Action.getPosition.method) = [] := by
  obtain ⟨qs, hqs, hposition⟩ := queues ho
  rw [hqs.queued, List.filter_eq_nil_iff]
  intro q hq hm
  have := hposition q hq (by simpa using hm)
  simp [this] at hw

theorem positions_of_poll (ho : m.before.rpc.Orderly) (hc : m.before.isConnected = true)
    (hp : m.isPoll = true) :
    ((m.queued.filter fun q => q.method = Action.getPosition.method).map fun _ => m.now) =
      [m.now] := by
  obtain ⟨p, now, c⟩ := m
  cases c with
  | askPosition =>
    rw [(queues_of_poll ho hc now).queued]
    rfl
  | _ => cases hp

theorem fires_of_poll (hp : m.isPoll = true) : m.fires = false := by
  obtain ⟨p, now, c⟩ := m
  cases c <;> first | rfl | cases hp

theorem wantsPosition_of_fires (hf : m.fires = true) : m.wantsPosition = false := by
  obtain ⟨p, now, c⟩ := m
  cases c <;> first | rfl | cases hf

end Moment

theorem positionsIn_cons (m : Moment ρ) (h : List (Moment ρ)) :
    positionsIn (m :: h) =
      ((m.queued.filter fun q => q.method = Action.getPosition.method).map fun _ => m.now) ++
        positionsIn h :=
  List.flatMap_cons ..

def deadlines (period due time : Nat) : List Nat :=
  (List.range ((time + period - due) / period)).map fun k => due + k * period

theorem deadlines_of_late {period due time : Nat} (h : time < due) :
    deadlines period due time = [] := by
  have : (time + period - due) / period = 0 := by
    rcases Nat.eq_zero_or_pos period with rfl | hp
    · exact Nat.div_zero _
    · exact Nat.div_eq_of_lt (by omega)
  rw [deadlines, this]
  rfl

theorem deadlines_of_due {period due time : Nat} (hp : 0 < period) (h : due ≤ time) :
    deadlines period due time = due :: deadlines period (due + period) time := by
  have hmore : time + period - due = (time + period - (due + period)) + period := by omega
  rw [deadlines, hmore, Nat.add_div_right _ hp, List.range_succ_eq_map, List.map_cons,
    List.map_map, deadlines]
  simp [Nat.succ_mul, Nat.add_assoc, Nat.add_comm period]

/-- The first deadline is one interval after the start. -/
theorem deadlines_from_start (period start length : Nat) :
    deadlines period (start + period) (start + length) =
      (List.range (length / period)).map fun k => start + (k + 1) * period := by
  have hcount : start + length + period - (start + period) = length := by omega
  rw [deadlines, hcount]
  apply List.map_congr_left
  intro k _
  rw [Nat.succ_mul]
  omega

/-- A timer that is awaited ticks at its deadline. -/
theorem Ready.now_of_fires {m : Moment ρ} {period due : Nat} (hr : Ready period due m.before)
    (hf : m.fires = true) (hprompt : m.before.timer.all (m.now ≤ ·) = true) : m.now = due := by
  obtain ⟨old, hold, hle⟩ := Moment.due_of_fires hf
  obtain rfl : old = due := Option.some.inj (hold.symm.trans hr.timer)
  simp only [hold, Option.all_some, decide_eq_true_eq] at hprompt
  omega

/-- After a tick and its poll the player is ready for the next deadline, and the position has been
asked for once. -/
theorem Ready.poll {pace : Pace} {m n : Moment ρ} {period due : Nat}
    (hr : Ready period due m.before) (hn : n.before = m.afterBy pace)
    (hm : m.decides = false) (hd : n.decides = false) (hf : m.fires = true)
    (hpoll : n.isPoll = true) (hnow : m.now = due) (hsame : n.now = m.now)
    (rest : List (Moment ρ)) :
    Ready period (due + period) (n.afterBy pace) ∧
      positionsIn (m :: n :: rest) = due :: positionsIn rest := by
  have hticked : Ready period (due + period) n.before := by
    rw [hn]
    exact Moment.ready_of_tick hr hm hf hnow
  refine ⟨Moment.ready_of_rest hticked hd (Moment.fires_of_poll hpoll), ?_⟩
  rw [positionsIn_cons, positionsIn_cons,
    Moment.positions_nil hr.orderly (Moment.wantsPosition_of_fires hf),
    Moment.positions_of_poll hticked.orderly hticked.connected hpoll, hsame, hnow]
  rfl

/-- While the timer is attended to, the position is asked for at its deadlines and only then. -/
theorem positions_of_attended {pace : Pace} {period time : Nat} (hp : 0 < period)
    {h : List (Moment ρ)} {last : Player ρ} (ha : Attended time h last) :
    ∀ {p : Player ρ} {calls : List (Nat × Call ρ)} {due : Nat}, Ready period due p →
      p.momentsBy pace calls = h → p.endBy pace calls = last →
      positionsIn h = deadlines period due time := by
  obtain ⟨halone, hpast, hprompt, hloops, hserved⟩ := ha
  -- along `loops`, since a tick and its poll are taken together
  induction h using loops.induct with
  | case1 =>
    intro p calls due hr hh hl
    cases calls with
    | cons => cases hh
    | nil =>
      obtain rfl : p = last := hl
      have hlate : time < due := by simpa [hr.timer] using hserved
      exact (deadlines_of_late hlate).symm
  | case2 m hf n rest ih =>
    intro p calls due hr hh hl
    obtain ⟨more, rfl, hmore, hl'⟩ := momentsBy_eq_cons hh
    obtain ⟨more', hn, hrest, hl''⟩ := momentsBy_eq_cons hmore
    simp only [loops, hf, if_true, Bool.and_eq_true, decide_eq_true_eq] at hloops
    obtain ⟨⟨hpoll, hsame⟩, hloops⟩ := hloops
    simp only [List.forall_mem_cons] at halone hpast hprompt
    have hnow := hr.now_of_fires hf hprompt.1
    obtain ⟨hready, hasked⟩ :=
      hr.poll hn halone.1 halone.2.1 hf hpoll hnow hsame rest
    have hdue : due ≤ time := hnow ▸ hpast.1
    rw [hasked, deadlines_of_due hp hdue]
    congr 1
    exact ih halone.2.2 hpast.2.2 hprompt.2.2 hloops hready hrest
      (hl''.symm.trans (hl'.symm.trans hl))
  | case3 m hf =>
    simp [loops, hf] at hloops
  | case4 m rest hf ih =>
    intro p calls due hr hh hl
    obtain ⟨more, rfl, hrest, hl'⟩ := momentsBy_eq_cons hh
    have hf : m.fires = false := by simpa using hf
    rw [loops.eq_def] at hloops
    simp only [hf, Bool.false_eq_true, if_false, Bool.and_eq_true, Bool.not_eq_true'] at hloops
    simp only [List.forall_mem_cons] at halone hpast hprompt
    have hrested : Ready period due (m.afterBy pace) := Moment.ready_of_rest hr halone.1 hf
    rw [positionsIn_cons, Moment.positions_nil hr.orderly hloops.1,
      ih halone.2 hpast.2 hprompt.2 hloops.2 hrested hrest (hl'.symm.trans hl)]
    rfl

/-- A timer that does not run is not started by a call that does not decide. -/
theorem stopped_of_alone {pace : Pace} {h : List (Moment ρ)} (ha : ∀ m ∈ h, m.decides = false) :
    ∀ {p : Player ρ} {calls : List (Nat × Call ρ)}, p.timer = none →
      p.momentsBy pace calls = h → ∀ m ∈ h, m.fires = false := by
  induction h with
  | nil => simp
  | cons m rest ih =>
    intro p calls ht hh
    obtain ⟨more, rfl, hrest, -⟩ := momentsBy_eq_cons hh
    simp only [List.forall_mem_cons] at ha ⊢
    have hf : m.fires = false := by
      by_contra hf
      obtain ⟨due, hdue, -⟩ := Moment.due_of_fires (by simpa using hf)
      simp [ht] at hdue
    refine ⟨hf, ih ha.2 ?_ hrest⟩
    have hbeats := m.beats pace
    generalize (m.afterBy pace).timer = timer at hbeats ⊢
    cases hbeats with
    | rests => exact ht
    | stops => rfl
    | arms | ticks => simp_all

/-- Without ticks the loop does not ask for the position. -/
theorem positions_of_stopped {h : List (Moment ρ)} (ho : ∀ m ∈ h, m.before.rpc.Orderly)
    (hf : ∀ m ∈ h, m.fires = false) (hl : loops h = true) : positionsIn h = [] := by
  induction h with
  | nil => rfl
  | cons m rest ih =>
    simp only [List.forall_mem_cons] at ho hf
    rw [loops.eq_def] at hl
    simp only [hf.1, Bool.false_eq_true, if_false, Bool.and_eq_true, Bool.not_eq_true'] at hl
    rw [positionsIn_cons, Moment.positions_nil ho.1 hl.1, ih ho.2 hf.2 hl.2]
    rfl

theorem performBy_kept (pace : Pace) {period : Nat} (p : Player ρ) (now : Nat) (c : Call ρ)
    (h : p.rpc.Orderly ∧ p.pollInterval = period) :
    (p.performBy pace now c).player.rpc.Orderly ∧
      (p.performBy pace now c).player.pollInterval = period :=
  ⟨Moment.afterBy_orderly (m := ⟨p, now, c⟩) h.1,
    (Moment.afterBy_pollInterval pace ⟨p, now, c⟩).trans h.2⟩

/-- Whatever timer is used, if its deadlines are an interval apart, no more polls than whole
intervals fit into the time for which it ran follow on its ticks. Once it is started on a connected
player, and attended to for some time, the position is asked for at every whole interval since and
at no other time; once it is stopped, not until it is started anew. What is queued joins the frames
to be taken. -/
theorem polls_keep_pace (pace : Pace) (run : Run ρ) (hp : 0 < run.pollInterval)
    (ho : run.InOrder) :
    (∀ time, (pollsIn (run.historyBy pace)).countP (·.now ≤ time) ≤
      runningTime pace (run.historyBy pace) time / run.pollInterval) ∧
    (∀ m ∈ run.historyBy pace,
      (m.afterBy pace).rpc.outbox = m.framesLeft ++ m.queued.map Rpc.encode) ∧
    ∀ before x stretch, run.historyBy pace = before ++ x :: stretch →
      (∀ length, x.known?.isSome = true → (x.afterBy pace).isConnected = true →
        Attended (x.now + length) stretch (run.playerBy pace) →
          positionsIn stretch = (List.range (length / run.pollInterval)).map
            fun k => x.now + (k + 1) * run.pollInterval) ∧
      (x.decides = true → x.known? = none → (∀ m ∈ stretch, m.decides = false) →
        (∀ m ∈ stretch, m.fires = false) ∧
          (loops stretch = true → positionsIn stretch = [])) := by
  have hkept : ∀ m ∈ run.historyBy pace,
      m.before.rpc.Orderly ∧ m.before.pollInterval = run.pollInterval :=
    History.before_of_moments (fun p now c => performBy_kept pace p now c)
      ⟨Rpc.orderly_new, rfl⟩ run.calls
  refine ⟨polls_le_running pace hp ho, ?_, ?_⟩
  · intro m hm
    obtain ⟨qs, hqs, -⟩ := Moment.queues (hkept m hm).1
    rw [Moment.afterBy_rpc, hqs.frames, hqs.queued]
  · intro before x stretch hs
    obtain ⟨p, calls, hmoments, hlast⟩ := History.moments_split hs
    obtain ⟨more, rfl, hstretch, hend⟩ := momentsBy_eq_cons hmoments
    have hx := hkept x (by simp [hs])
    constructor
    · intro length hk hc ha
      have hready : Ready run.pollInterval (x.now + run.pollInterval) (x.afterBy pace) :=
        ⟨Moment.afterBy_orderly hx.1, hc, (Moment.afterBy_pollInterval pace x).trans hx.2,
          hx.2 ▸ Moment.timer_started pace hk⟩
      rw [positions_of_attended hp ha hready hstretch (hend.symm.trans hlast),
        deadlines_from_start]
    · intro hd hk halone
      have hfires := stopped_of_alone halone (Moment.timer_stopped pace hd hk) hstretch
      refine ⟨hfires, positions_of_stopped ?_ hfires⟩
      intro m hm
      exact (hkept m (by simp [hs, hm])).1

def playingBriefly : Run Unit :=
  ⟨5, 2, false, .live,
    [(0, .opened),
     (1, .receive <| Value.text <| .object
       [("method", .string "onchange"), ("params", .object [("duration", .integer 180)])]),
     (3, .tick), (3, .askPosition), (4, .drain), (5, .tick), (5, .askPosition)]⟩

/-- After six milliseconds two polls have come of a timer that ran for five. -/
theorem two_polls_in_five_milliseconds :
    0 < playingBriefly.pollInterval ∧ playingBriefly.InOrder ∧
      (pollsIn (playingBriefly.historyBy .tolerant)).countP (·.now ≤ 6) = 2 ∧
      runningTime .tolerant (playingBriefly.historyBy .tolerant) 6 = 5 ∧
      ∃ before x stretch, playingBriefly.historyBy .tolerant = before ++ x :: stretch ∧
        Attended (x.now + 5) stretch (playingBriefly.playerBy .tolerant) ∧
        positionsIn stretch = [3, 5] := by
  have hp : 0 < playingBriefly.pollInterval := by decide
  have ho : playingBriefly.InOrder := by
    unfold Run.InOrder
    decide
  obtain ⟨-, -, hstretches⟩ := polls_keep_pace .tolerant playingBriefly hp ho
  have hs : playingBriefly.historyBy .tolerant =
      [⟨playingBriefly.start, 0, .opened⟩] ++
        ⟨(opened playingBriefly.start).1, 1, .receive _⟩ ::
          (playingBriefly.historyBy .tolerant).drop 2 := rfl
  have ha : Attended 6 ((playingBriefly.historyBy .tolerant).drop 2)
      (playingBriefly.playerBy .tolerant) :=
    ⟨by decide +kernel, by decide +kernel, by decide +kernel, by decide +kernel, by decide +kernel⟩
  refine ⟨hp, ho, by decide +kernel, by decide +kernel, _, _, _, hs, ha, ?_⟩
  rw [(hstretches _ _ _ hs).1 5 (by decide +kernel) (by decide +kernel) ha]
  rfl

end MediaRemote.Session.Player
