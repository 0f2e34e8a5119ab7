import MediaRemote.Proofs.Session.Polls
import MediaRemote.Session.Clock

namespace MediaRemote.Session.Player

open Step PlayerStep

variable {ρ : Type}

def pollsAt (times : List Nat) : List (Nat × Call ρ) :=
  times.flatMap fun now => [(now, .tick), (now, .askPosition)]

def polled (p : Player ρ) (now : Nat) : Player ρ := p.endBy .tolerant (pollsAt [now])

section Poll

variable {p : Player ρ} {due time : Nat}

theorem polled_eq (ht : p.timer = some due) :
    p.polled due = (inOrder [tick due, askPosition] p).1 := by
  have hcalls : p.polled due = (askPosition (p.performBy .tolerant due .tick).player).1 := rfl
  rw [hcalls, performBy_tick (by simp [ht])]
  rfl

theorem tick_timer (ht : p.timer = some due) :
    (tick due p).1.timer = some (due + p.pollInterval) := by
  simp [tick, Step.modify, ht]

theorem polled_timer (ht : p.timer = some due) :
    (p.polled due).timer = some (due + p.pollInterval) := by
  rw [polled_eq ht, inOrder_cons_eq, inOrder_cons_eq, inOrder_nil_eq]
  simp only [askPosition, send_eq]
  exact tick_timer ht

theorem polled_pollInterval (ht : p.timer = some due) :
    (p.polled due).pollInterval = p.pollInterval := by
  rw [polled_eq ht, inOrder_cons_eq, inOrder_cons_eq, inOrder_nil_eq]
  simp only [askPosition, send_eq]
  rfl

theorem attended_nothing (ht : p.timer = some due) (h : time < due) : Attended time [] p where
  alone := by simp
  past := by simp
  prompt := by simp
  loops := rfl
  served := by simpa [ht] using h

/-- A tick in time, and the question that follows it, are part of attending to the timer. -/
theorem attended_poll (ht : p.timer = some due) (hle : due ≤ time) {times : List Nat}
    {last : Player ρ}
    (ha : Attended time ((p.polled due).momentsBy .tolerant (pollsAt times)) last) :
    Attended time (p.momentsBy .tolerant (pollsAt (due :: times))) last := by
  have hticks : (p.performBy .tolerant due .tick).player = (tick due p).1 :=
    performBy_tick (by simp [ht])
  have hmoments : p.momentsBy .tolerant (pollsAt (due :: times)) =
      ⟨p, due, .tick⟩ :: ⟨(tick due p).1, due, .askPosition⟩ ::
        (p.polled due).momentsBy .tolerant (pollsAt times) := by
    rw [← hticks]
    rfl
  have hfires : Moment.fires ⟨p, due, .tick⟩ = true := by simp [Moment.fires, ht]
  rw [hmoments]
  constructor
  case alone =>
    simp only [List.forall_mem_cons]
    exact ⟨rfl, rfl, ha.alone⟩
  case past =>
    simp only [List.forall_mem_cons]
    exact ⟨hle, hle, ha.past⟩
  case prompt =>
    simp only [List.forall_mem_cons]
    exact ⟨by simp [ht], by simp [tick_timer ht], ha.prompt⟩
  case loops =>
    exact (loops_of_poll hfires (n := ⟨(tick due p).1, due, .askPosition⟩) rfl rfl _).trans ha.loops
  case served => exact ha.served

end Poll

/-- The player ticks at the deadlines and at no other time, and its timer is attended to. -/
structure Attends (period due deadline : Nat) (p : Player ρ) (a : Awaited ρ) : Prop where
  ticks : a.ticks = deadlines period due deadline
  player : a.player = p.endBy .tolerant (pollsAt a.ticks)
  attended : Attended deadline (p.momentsBy .tolerant (pollsAt a.ticks)) a.player

theorem attends_nothing {period due deadline : Nat} {p : Player ρ} (ht : p.timer = some due)
    (h : deadline < due) : Attends period due deadline p ⟨p, [], []⟩ :=
  ⟨(deadlines_of_late h).symm, rfl, attended_nothing ht h⟩

/-- There is one tick a millisecond at most, so fuel for every millisecond that is left will do. -/
theorem awaitTicks_attends {period : Nat} (hp : 0 < period) (deadline fuel : Nat) :
    ∀ {p : Player ρ} {now due : Nat}, p.pollInterval = period → p.timer = some due → now ≤ due →
      deadline < due + fuel → Attends period due deadline p (p.awaitTicks deadline fuel now) := by
  induction fuel with
  | zero =>
    intro p now due _ ht _ hfuel
    exact attends_nothing ht hfuel
  | succ fuel ih =>
    intro p now due hi ht hnow hfuel
    have hmax : max now due = due := Nat.max_eq_right hnow
    simp only [awaitTicks, ht, hmax]
    by_cases hdue : due ≤ deadline
    · rw [if_pos hdue, ← polled_eq ht]
      have hnext : (p.polled due).timer = some (due + period) := hi ▸ polled_timer ht
      obtain ⟨hticks, hplayer, hattended⟩ := ih ((polled_pollInterval ht).trans hi) hnext
        (Nat.le_add_right due period) (by omega)
      refine ⟨?_, ?_, attended_poll ht hdue hattended⟩
      · rw [hticks, deadlines_of_due hp hdue]
      · exact hplayer
    · rw [if_neg hdue]
      exact attends_nothing ht (by omega)

/-- A connected player whose timer is awaited before it is due ticks at the deadlines, asks for the
position at each of them, and asks at no other time. -/
theorem await_asks {period due now : Nat} (hp : 0 < period) {p : Player ρ}
    (hr : Ready period due p) (hnow : now ≤ due) (deadline : Nat) :
    (p.await now deadline).ticks = deadlines period due deadline ∧
      (p.await now deadline).player =
        p.endBy .tolerant (pollsAt (p.await now deadline).ticks) ∧
      positionsIn (p.momentsBy .tolerant (pollsAt (p.await now deadline).ticks)) =
        deadlines period due deadline := by
  have ha : Attends period due deadline p (p.await now deadline) :=
    awaitTicks_attends hp deadline _ hr.interval hr.timer hnow (by omega)
  exact ⟨ha.ticks, ha.player, positions_of_attended hp ha.attended hr rfl ha.player.symm⟩

end MediaRemote.Session.Player
