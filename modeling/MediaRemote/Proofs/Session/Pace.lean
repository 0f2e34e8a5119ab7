import MediaRemote.Proofs.Session.Continuations
import MediaRemote.Proofs.Session.Playback

namespace MediaRemote.Session.Player

open Step PlayerStep

variable {ρ : Type}

/-- How a timer goes on: a deadline is at least one period after the one before, and exactly one
period if the timer ticks in time. -/
structure Pace where
  /-- The deadline that follows a tick, by the period, the deadline that has passed and the time. -/
  next : Nat → Nat → Nat → Nat
  apart : ∀ period due now, due ≤ now → due + period ≤ next period due now
  kept : ∀ period due, next period due due = due + period

/-- The player's own timer: after a tick that is too late, a whole period passes. -/
def Pace.tolerant : Pace where
  next period due now := if due + tickTolerance < now then now + period else due + period
  apart period due now h := by
    split <;> omega
  kept period due := by simp

/-- The player with any timer in place of its own; no timer ticks early. -/
def performBy (pace : Pace) (now : Nat) (p : Player ρ) : Call ρ → Done ρ
  | .tick => .of <| onlyIf (p.timer.any (· ≤ now))
    (modify fun p => { p with timer := p.timer.map (pace.next p.pollInterval · now) }) p
  | c => p.perform now c

theorem performBy_tolerant (now : Nat) (p : Player ρ) (c : Call ρ) :
    p.performBy .tolerant now c = p.perform now c := by
  cases c <;> rfl

theorem performBy_tick {now : Nat} {p : Player ρ} (h : p.timer.any (· ≤ now) = true) :
    (p.performBy .tolerant now .tick).player = (tick now p).1 := by
  simp only [performBy, Done.of, onlyIf, h, if_true]
  rfl

/-- Timers differ in nothing but their deadlines. -/
theorem performBy_eq (pace : Pace) (now : Nat) (p : Player ρ) (c : Call ρ) :
    (p.performBy pace now c).player =
      { (p.perform now c).player with timer := (p.performBy pace now c).player.timer } := by
  cases c with
  | tick =>
    simp only [performBy, perform, Done.of, onlyIf]
    split <;> rfl
  | _ => rfl

def endBy (pace : Pace) (p : Player ρ) (calls : List (Nat × Call ρ)) : Player ρ :=
  History.stateAfter (fun now c p => (p.performBy pace now c).player) p calls

def momentsBy (pace : Pace) (p : Player ρ) (calls : List (Nat × Call ρ)) : List (Moment ρ) :=
  History.moments (fun now c p => (p.performBy pace now c).player) p calls

theorem endBy_append (pace : Pace) (p : Player ρ) (calls more : List (Nat × Call ρ)) :
    p.endBy pace (calls ++ more) = (p.endBy pace calls).endBy pace more :=
  List.foldl_append ..

theorem momentsBy_append (pace : Pace) (p : Player ρ) (calls more : List (Nat × Call ρ)) :
    p.momentsBy pace (calls ++ more) =
      p.momentsBy pace calls ++ (p.endBy pace calls).momentsBy pace more :=
  History.moments_append ..

namespace Run

def playerBy (pace : Pace) (run : Run ρ) : Player ρ := run.start.endBy pace run.calls

def historyBy (pace : Pace) (run : Run ρ) : List (Moment ρ) := run.start.momentsBy pace run.calls

def InOrder (run : Run ρ) : Prop := (run.calls.map (·.1)).Pairwise (· ≤ ·)

theorem historyBy_tolerant (run : Run ρ) : run.historyBy .tolerant = run.history := by
  simp only [historyBy, momentsBy, history, performBy_tolerant]

theorem playerBy_tolerant (run : Run ρ) : run.playerBy .tolerant = run.player := by
  simp only [playerBy, endBy, player, performBy_tolerant]

/-- What holds of a new player and is kept by every call holds after every run in order of time. -/
theorem inductBy {P : List (Moment ρ) → Player ρ → Prop} (pace : Pace) (run : Run ρ)
    (ho : run.InOrder) (hnew : P [] run.start)
    (hstep : ∀ h p now c, (∀ m ∈ h, m.now ≤ now) → P h p →
      P (h ++ [⟨p, now, c⟩]) (p.performBy pace now c).player) :
    P (run.historyBy pace) (run.playerBy pace) := by
  obtain ⟨pageSize, pollInterval, forwards, observer, calls⟩ := run
  simp only [InOrder] at ho
  induction calls using List.reverseRecOn with
  | nil => exact hnew
  | append_singleton calls c ih =>
    obtain ⟨now, c⟩ := c
    rw [List.map_append, List.pairwise_append] at ho
    obtain ⟨hbefore, -, hlast⟩ := ho
    simp only [historyBy, momentsBy, playerBy, endBy, start, History.moments_concat,
      History.stateAfter_concat]
    refine hstep _ _ now c ?_ (ih hbefore hnew)
    intro m hm
    have hnow := List.mem_map_of_mem (f := (·.now)) hm
    rw [History.moments_now] at hnow
    exact hlast m.now hnow now (by simp)

end Run

namespace Moment

variable (pace : Pace) (m : Moment ρ)

def afterBy : Player ρ := (m.before.performBy pace m.now m.input).player

def fires : Bool :=
  match m.input with
  | .tick => m.before.timer.any (· ≤ m.now)
  | _ => false

inductive Beats : Option Nat → Prop
  | arms (d) (hd : m.decides = true) (hk : m.known? = some d) (hf : m.fires = false) :
    Beats (some (m.now + m.before.pollInterval))
  | stops (hd : m.decides = true) (hk : m.known? = none) (hf : m.fires = false) : Beats none
  | ticks (due) (hd : m.decides = false) (ht : m.before.timer = some due) (hle : due ≤ m.now)
    (hf : m.fires = true) : Beats (some (pace.next m.before.pollInterval due m.now))
  | rests (hd : m.decides = false) (hf : m.fires = false) : Beats m.before.timer

theorem fires_of_input {m : Moment ρ} (h : m.input ≠ .tick) : m.fires = false := by
  unfold fires
  split
  · exact absurd ‹_› h
  · rfl

theorem due_of_fires {m : Moment ρ} (h : m.fires = true) :
    ∃ due, m.before.timer = some due ∧ due ≤ m.now := by
  unfold fires at h
  split at h
  · cases ht : m.before.timer with
    | none => simp [ht] at h
    | some due => exact ⟨due, rfl, by simpa [ht] using h⟩
  · cases h

theorem afterBy_of_input {m : Moment ρ} (h : m.input ≠ .tick) : m.afterBy pace = m.after := by
  obtain ⟨p, now, c⟩ := m
  cases c <;> first | rfl | exact absurd rfl h

theorem beats : m.Beats pace (m.afterBy pace).timer := by
  by_cases hi : m.input = .tick
  · have hd := decides_of_tick hi
    obtain ⟨p, now, c⟩ := m
    obtain rfl : c = .tick := hi
    simp only [afterBy, performBy, Done.of, onlyIf]
    cases ht : p.timer with
    | none => exact .rests hd (by simp [fires, ht])
    | some due =>
      by_cases hle : due ≤ now
      · simp only [Option.any_some, hle, decide_true, if_true, Step.modify, ht,
          Option.map_some]
        exact .ticks due hd ht hle (by simp [fires, ht, hle])
      · simp only [Option.any_some, hle, decide_false, Bool.false_eq_true, if_false, Step.skip]
        exact .rests hd (by simp [fires, ht, hle])
  · have hf := fires_of_input hi
    rw [afterBy_of_input pace hi, m.times.deciding hi]
    cases hd : m.decides with
    | false => exact .rests hd hf
    | true =>
      cases hk : m.known? with
      | none => exact .stops hd hk hf
      | some d => exact .arms d hd hk hf

theorem decides_of_known {m : Moment ρ} (hk : m.known?.isSome = true) : m.decides = true := by
  by_contra hd
  simp [m.known_eq, change_of_undecided (by simpa using hd)] at hk

/-- A known duration starts the timer anew. -/
theorem timer_started {m : Moment ρ} (hk : m.known?.isSome = true) :
    (m.afterBy pace).timer = some (m.now + m.before.pollInterval) := by
  have hd := decides_of_known hk
  have hbeats := m.beats pace
  generalize (m.afterBy pace).timer = timer at hbeats ⊢
  cases hbeats with
  | arms => rfl
  | stops | ticks | rests => simp_all

/-- Whatever else decides stops the timer. -/
theorem timer_stopped {m : Moment ρ} (hd : m.decides = true) (hk : m.known? = none) :
    (m.afterBy pace).timer = none := by
  have hbeats := m.beats pace
  generalize (m.afterBy pace).timer = timer at hbeats ⊢
  cases hbeats with
  | stops => rfl
  | arms | ticks | rests => simp_all

theorem afterBy_pollInterval : (m.afterBy pace).pollInterval = m.before.pollInterval := by
  rw [afterBy, performBy_eq]
  exact (perform_make m.before m.now m.input).pollInterval

end Moment

theorem momentsBy_eq_cons {pace : Pace} {p : Player ρ} {calls : List (Nat × Call ρ)}
    {m : Moment ρ} {rest : List (Moment ρ)} (h : p.momentsBy pace calls = m :: rest) :
    ∃ more, m.before = p ∧ (m.afterBy pace).momentsBy pace more = rest ∧
      p.endBy pace calls = (m.afterBy pace).endBy pace more := by
  obtain ⟨more, rfl, rfl, hrest⟩ := History.moments_eq_cons h
  exact ⟨more, rfl, hrest, rfl⟩

section RunningTime

variable (pace : Pace) (h : List (Moment ρ))

def runsAt (time : Nat) : Bool :=
  (h.filter (·.now ≤ time)).getLast?.any fun m => (m.afterBy pace).isPolling

def runningTime (time : Nat) : Nat := (List.range time).countP (runsAt pace h)

def ticksUntil (time : Nat) : Nat := h.countP fun m => m.fires && m.now ≤ time

variable {h} {m : Moment ρ} {time : Nat}

theorem runsAt_before (ht : time < m.now) : runsAt pace (h ++ [m]) time = runsAt pace h time := by
  have hm : ¬ m.now ≤ time := by omega
  simp [runsAt, List.filter_append, hm]

theorem runsAt_after (ht : m.now ≤ time) :
    runsAt pace (h ++ [m]) time = (m.afterBy pace).isPolling := by
  simp [runsAt, List.filter_append, ht]

theorem runningTime_before (ht : time ≤ m.now) :
    runningTime pace (h ++ [m]) time = runningTime pace h time := by
  apply List.countP_congr
  intro s hs
  rw [runsAt_before pace (Nat.lt_of_lt_of_le (List.mem_range.mp hs) ht)]

/-- A timer that runs after the last call runs on. -/
theorem runningTime_after (ht : m.now ≤ time) :
    runningTime pace (h ++ [m]) time =
      runningTime pace h m.now + if (m.afterBy pace).isPolling then time - m.now else 0 := by
  obtain ⟨more, rfl⟩ := Nat.exists_eq_add_of_le ht
  have hmore : ((List.range more).map (m.now + ·)).countP (runsAt pace (h ++ [m])) =
      if (m.afterBy pace).isPolling then more else 0 := by
    have hsame : ∀ s, runsAt pace (h ++ [m]) (m.now + s) = (m.afterBy pace).isPolling :=
      fun s => runsAt_after pace (by omega)
    rw [List.countP_map, List.countP_congr (q := fun _ => (m.afterBy pace).isPolling)]
    · cases (m.afterBy pace).isPolling <;> simp
    · intro s hs
      simp [hsame]
  have hold := runningTime_before pace (h := h) (Nat.le_refl m.now)
  simp only [runningTime] at hold ⊢
  rw [List.range_add, List.countP_append, hmore, hold, Nat.add_sub_cancel_left]

theorem ticksUntil_before (ht : time < m.now) :
    ticksUntil (h ++ [m]) time = ticksUntil h time := by
  have hm : ¬ m.now ≤ time := by omega
  simp [ticksUntil, List.countP_append, hm]

theorem ticksUntil_after (ht : m.now ≤ time) :
    ticksUntil (h ++ [m]) time = ticksUntil h time + if m.fires then 1 else 0 := by
  cases hf : m.fires <;> simp [ticksUntil, List.countP_append, hf, ht]

/-- Once all calls were made, there are no more ticks. -/
theorem ticksUntil_of_past {s : Nat} (hs : ∀ x ∈ h, x.now ≤ s) (ht : s ≤ time) :
    ticksUntil h time = ticksUntil h s := by
  apply List.countP_congr
  intro x hx
  have := hs x hx
  have : x.now ≤ time := by omega
  simp [*]

end RunningTime

/-- There are no more ticks than periods in the time for which the timer ran, and the deadline of a
timer that runs leaves room for one more. -/
structure Paced (pace : Pace) (period : Nat) (h : List (Moment ρ)) (p : Player ρ) : Prop where
  interval : p.pollInterval = period
  bound : ∀ time, period * ticksUntil h time ≤ runningTime pace h time
  room : ∀ time, (∀ m ∈ h, m.now ≤ time) → ∀ due, p.timer = some due →
    period * (ticksUntil h time + 1) + time ≤ runningTime pace h time + due

theorem Paced.step {pace : Pace} {period : Nat} {h : List (Moment ρ)} {m : Moment ρ}
    (hp : Paced pace period h m.before) (ho : ∀ x ∈ h, x.now ≤ m.now) :
    Paced pace period (h ++ [m]) (m.afterBy pace) := by
  have hbound := hp.bound m.now
  have hroom := hp.room m.now ho
  have hbeats := m.beats pace
  have hinterval : (m.afterBy pace).pollInterval = period :=
    (m.afterBy_pollInterval pace).trans hp.interval
  have hperiod := hp.interval
  refine ⟨hinterval, ?_, ?_⟩
  · intro time
    by_cases ht : time < m.now
    · rw [ticksUntil_before ht, runningTime_before pace (Nat.le_of_lt ht)]
      exact hp.bound time
    · have ht : m.now ≤ time := by omega
      rw [ticksUntil_after ht, runningTime_after pace ht, ticksUntil_of_past ho ht]
      refine Nat.le_trans ?_ (Nat.le_add_right _ _)
      cases hf : m.fires with
      | false => simpa using hbound
      | true =>
        -- the deadline has passed, so the room that it left is used up
        obtain ⟨due, hdue, hle⟩ := Moment.due_of_fires hf
        have := hroom due hdue
        simp only [if_true]
        omega
  · intro time hall due hdue
    have ht : m.now ≤ time := hall m (by simp)
    have hrunning : (m.afterBy pace).isPolling = true := by simp [isPolling, hdue]
    rw [ticksUntil_after ht, runningTime_after pace ht, ticksUntil_of_past ho ht, if_pos hrunning]
    generalize (m.afterBy pace).timer = timer at hbeats hdue
    cases hbeats with
    | stops => cases hdue
    | arms d hd hk hf =>
      obtain rfl := Option.some.inj hdue
      simp only [hf, Bool.false_eq_true, if_false, Nat.add_zero, Nat.mul_add, Nat.mul_one]
      omega
    | ticks old hd hold hle hf =>
      obtain rfl := Option.some.inj hdue
      have hleft := hroom old hold
      have hapart := pace.apart m.before.pollInterval old m.now hle
      rw [hperiod] at hapart ⊢
      simp only [hf, if_true, Nat.mul_add, Nat.mul_one] at hleft ⊢
      omega
    | rests hd hf =>
      have hleft := hroom due hdue
      simp only [hf, Bool.false_eq_true, if_false, Nat.add_zero]
      omega

theorem run_paced (pace : Pace) (run : Run ρ) (ho : run.InOrder) :
    Paced pace run.pollInterval (run.historyBy pace) (run.playerBy pace) := by
  refine run.inductBy (P := Paced pace run.pollInterval) pace ho ⟨rfl, ?_, ?_⟩ ?_
  · simp [ticksUntil]
  · intro time _ due hdue
    cases hdue
  · intro h p now c hle hp
    exact Paced.step (m := ⟨p, now, c⟩) hp hle

end MediaRemote.Session.Player
