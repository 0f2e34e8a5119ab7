import MediaRemote.Proofs.Session.Reports

namespace MediaRemote.Session

open History (Since)
open Json (Value)
open Wire (Change Position Request)

variable {ρ : Type}

namespace Content

def change? : Content → Option Change
  | .change c => some c
  | _ => none

def position? : Content → Option Position
  | .position a => some a
  | _ => none

/-- A change, or the end of the stream, decides whether the timer runs. -/
def decides : Content → Bool
  | .change _ => true
  | .position a => a.isEndOfStream
  | _ => false

def known? (content : Content) : Option Binary64 := content.change?.bind Change.knownDuration

end Content

namespace Player

/-- The duration that a position reports: its own, or else the one that is kept. -/
def positionTold (p : Player ρ) (a : Position) : Binary64 :=
  if a.isEndOfStream then .zero else (a.duration.or p.cache.duration).getD .zero

def contentTold (p : Player ρ) : Content → Option Binary64
  | .change c => p.durationTold c
  | .position a => some (p.positionTold a)
  | _ => none

def timerAfter (p : Player ρ) (now : Nat) (content : Content) : Option Nat :=
  if content.decides then content.known?.map fun _ => now + p.pollInterval else p.timer

/-- Only a change touches the duration, only contents that decide touch the timer, and only a change
or a position reports a duration. -/
theorem deed_times (p : Player ρ) (now : Nat) (request : Option Request) (content : Content) :
    (p.deed now request content).cache.duration =
      content.change?.elim p.cache.duration p.durationKept ∧
    (p.deed now request content).timer = p.timerAfter now content ∧
    lastTold Event.duration? (eventsIn (p.deed now request content).gives) =
      p.contentTold content := by
  cases content with
  | change c =>
    refine ⟨rfl, rfl, ?_⟩
    simp only [deed, changeDeed, eventsIn_map, contentTold]
    simp [changeTold]
  | position a =>
    by_cases he : a.isEndOfStream = true <;>
      simp [deed, positionDeed, telling, idle, timerAfter, contentTold, positionTold,
        Content.change?, Content.known?, Content.decides, he]
  | state c =>
    simp only [deed, stateDeed]
    cases c.state <;> exact ⟨rfl, rfl, rfl⟩
  | next c =>
    simp only [deed, nextDeed]
    cases c.next <;> exact ⟨rfl, rfl, rfl⟩
  | info c =>
    simp only [deed]
    cases c.info with
    | none => cases c.message <;> exact ⟨rfl, rfl, rfl⟩
    | some info => exact ⟨rfl, rfl, rfl⟩
  | capabilities d =>
    refine ⟨rfl, rfl, ?_⟩
    simp [deed, contentTold]
  | list | options | filter | setInfo | volume => exact ⟨rfl, rfl, rfl⟩

namespace Moment

variable (m : Moment ρ)

def change? : Option Change := m.content?.bind Content.change?

def position? : Option Position := m.content?.bind Content.position?

/-- A change, the end of the stream, or the end of the connection. -/
def decides : Bool := m.forgets || m.content?.any Content.decides

def known? : Option Binary64 := m.content?.bind Content.known?

def durationTold? : Option Binary64 := lastTold Event.duration? m.events

structure Times (s : Cache) (timer : Option Nat) (told : List Event) : Prop where
  duration : s.duration = m.change?.elim m.before.cache.duration m.before.durationKept
  deciding : m.input ≠ .tick → timer =
    if m.decides then m.known?.map fun _ => m.now + m.before.pollInterval else m.before.timer
  ticking : m.input = .tick → timer.isSome = m.before.timer.isSome
  told : lastTold Event.duration? told =
    if m.before.observer = .live then m.content?.bind m.before.contentTold else none

variable {m}

theorem content_of_forgets (h : m.forgets = true) : m.content? = none := by
  obtain ⟨p, now, c⟩ := m
  cases c <;> first | rfl | cases h

theorem content_of_tick (h : m.input = .tick) : m.content? = none := by
  simp [content?, inbound?, h]

theorem forgets_of_content {content : Content} (h : m.content? = some content) :
    m.forgets = false := by
  cases hf : m.forgets with
  | false => rfl
  | true => simp [content_of_forgets hf] at h

/-- What is taken in leaves and tells what its deed does, and anything else only by the way. -/
theorem course_of_content {content : Content} (hc : m.content? = some content) :
    m.after.cache = (m.deedOf content).cache ∧ m.after.timer = (m.deedOf content).timer ∧
      ∃ before after,
        m.events =
          before ++ eventsIn (heard m.before.observer (m.deedOf content).gives) ++ after ∧
        ∀ e ∈ before ++ after, e.isAside = true := by
  have hcourse := m.course
  generalize m.after.cache = s, m.after.timer = timer, m.events = told at hcourse
  cases hcourse with
  | closes hf => simp [content_of_forgets hf] at hc
  | ticks hi => simp [content_of_tick hi] at hc
  | rests hf hnone => simp [hnone] at hc
  | takes content' hc' before after haside =>
    obtain rfl : content = content' := by simpa [hc] using hc'
    exact ⟨rfl, rfl, before, after, rfl, haside⟩

theorem Course.times {s : Cache} {timer : Option Nat} {told : List Event}
    (h : m.Course s timer told) : m.Times s timer told := by
  cases h with
  | closes hf =>
    have hc := content_of_forgets hf
    constructor
    · simp only [change?, hc]
      split <;> rfl
    · simp [decides, hf, known?, hc]
    · intro hi
      simp [forgets, hi] at hf
    · rw [hc]
      split <;> simp
  | takes content hc before after ha =>
    have hu : ∀ e ∈ before ++ after, e.duration? = none :=
      fun e he => (Event.unspoken_of_aside (ha e he)).duration
    have hbefore := lastTold_eq_none fun e he => hu e (List.mem_append_left after he)
    have hafter := lastTold_eq_none fun e he => hu e (List.mem_append_right before he)
    obtain ⟨hduration, htimer, htold⟩ := m.before.deed_times m.now m.answered? content
    constructor
    · rw [deedOf, hduration, change?, hc, Option.bind_some]
    · intro _
      rw [deedOf, htimer]
      simp [timerAfter, decides, forgets_of_content hc, known?, hc]
    · intro hi
      simp [content_of_tick hi] at hc
    · rw [lastTold_append, lastTold_append, hbefore, hafter, Option.none_or, Option.or_none, hc,
        Option.bind_some, ← htold, eventsIn_heard]
      split <;> rfl
  | ticks hi due ht hd =>
    have hc := content_of_tick hi
    constructor
    · simp [change?, hc]
    · exact fun h => absurd hi h
    · simp [ht]
    · simp [hc]
  | rests hf hc told ha =>
    have hnone := lastTold_eq_none fun e he => (Event.unspoken_of_aside (ha e he)).duration
    constructor
    · simp [change?, hc]
    · simp [decides, hf, hc]
    · simp
    · simp [hc, hnone]

theorem times (m : Moment ρ) : m.Times m.after.cache m.after.timer m.events := m.course.times

/-- Where nothing decides, no change was taken in. -/
theorem change_of_undecided (h : m.decides = false) : m.change? = none := by
  cases hc : m.content? with
  | none => simp [change?, hc]
  | some content =>
    cases content with
    | change c => simp [decides, hc, Content.decides] at h
    | _ => simp [change?, hc, Content.change?]

theorem known_eq (m : Moment ρ) : m.known? = m.change?.bind Change.knownDuration := by
  cases hc : m.content? <;> simp [known?, change?, hc, Content.known?]

theorem decides_of_tick (h : m.input = .tick) : m.decides = false := by
  simp [decides, forgets, h, content_of_tick h]

end Moment

theorem knownDuration_nonzero {c : Change} {d : Binary64} (h : c.knownDuration = some d) :
    d.isZero = false := by
  obtain ⟨-, hz⟩ := Option.filter_eq_some_iff.mp h
  simpa using hz

def knownLast (h : List (Moment ρ)) : Option Binary64 :=
  (h.filter (·.decides)).getLast?.bind Moment.known?

theorem knownLast_concat (h : List (Moment ρ)) (m : Moment ρ) :
    knownLast (h ++ [m]) = if m.decides then m.known? else knownLast h := by
  cases hd : m.decides <;> simp [knownLast, List.filter_append, hd]

/-- The timer runs for the last known duration, which the cache then holds. -/
structure Polls (h : List (Moment ρ)) (p : Player ρ) : Prop where
  running : p.isPolling = (knownLast h).isSome
  duration : ∀ d, knownLast h = some d → p.cache.duration = some d ∧ d.isZero = false

theorem Polls.step {h : List (Moment ρ)} {m : Moment ρ} (hp : Polls h m.before) :
    Polls (h ++ [m]) m.after := by
  have ht := m.times
  cases hd : m.decides with
  | true =>
    have hi : m.input ≠ .tick := by
      intro hi
      simp [Moment.decides_of_tick hi] at hd
    constructor
    · rw [knownLast_concat, hd, isPolling, ht.deciding hi, hd]
      simp
    · intro d hk
      rw [knownLast_concat, hd, if_pos rfl, m.known_eq] at hk
      obtain ⟨c, hc, hknown⟩ := Option.bind_eq_some_iff.mp hk
      rw [ht.duration, hc]
      exact ⟨by simp [durationKept, hknown], knownDuration_nonzero hknown⟩
  | false =>
    constructor
    · rw [knownLast_concat, hd, if_neg Bool.false_ne_true, ← hp.running]
      by_cases hi : m.input = .tick
      · exact ht.ticking hi
      · rw [isPolling, ht.deciding hi, hd]
        rfl
    · intro d hk
      rw [knownLast_concat, hd, if_neg Bool.false_ne_true] at hk
      rw [ht.duration, Moment.change_of_undecided hd]
      exact hp.duration d hk

theorem run_polls (run : Run ρ) : Polls run.history run.player := by
  refine run.induct (P := Polls) ?_ ?_
  · intro pageSize pollInterval forwards observer
    exact ⟨rfl, nofun⟩
  · intro h p now c hp
    exact Polls.step (m := ⟨p, now, c⟩) hp

/-- The timer runs exactly when the last call that decides about it was a change with a known
duration, and the cache then holds this duration, which is not zero. Such a change starts the timer
anew; any other call that decides stops it; a tick keeps it running; all other calls leave it as it
is. -/
theorem timer_runs_while_duration_is_known (run : Run ρ) :
    run.player.isPolling = (knownLast run.history).isSome ∧
    (∀ d, knownLast run.history = some d →
      run.player.cache.duration = some d ∧ d.isZero = false) ∧
    ∀ m : Moment ρ, m.before = run.player →
      (m.decides = true →
        m.after.timer = m.known?.map fun _ => m.now + run.pollInterval) ∧
      (m.decides = false → m.input ≠ .tick → m.after.timer = m.before.timer) ∧
      (m.input = .tick → m.decides = false ∧ m.after.isPolling = m.before.isPolling) := by
  have hp := run_polls run
  refine ⟨hp.running, hp.duration, ?_⟩
  intro m hm
  have ht := m.times
  have hinterval : m.before.pollInterval = run.pollInterval := hm ▸ (run_make run).pollInterval
  refine ⟨?_, ?_, ?_⟩
  · intro hd
    have hi : m.input ≠ .tick := by
      intro hi
      simp [Moment.decides_of_tick hi] at hd
    rw [ht.deciding hi, hd, hinterval]
    rfl
  · intro hd hi
    rw [ht.deciding hi, hd]
    rfl
  · intro hi
    exact ⟨Moment.decides_of_tick hi, ht.ticking hi⟩

/-- The end of the stream, or a duration of zero. -/
def tellsGone (a : Position) : Bool := a.isEndOfStream || a.duration.any (·.isZero)

section Gone

variable {p : Player ρ} {c : Change} {a : Position} {d : Binary64}

theorem durationKept_untold (h : p.durationTold c = none) :
    p.durationKept c = p.cache.duration := by
  obtain ⟨hknown, hpolling⟩ := Option.or_eq_none_iff.mp h
  have hn : p.isPolling = false := by simpa using hpolling
  simp [durationKept, hknown, hn]

/-- A change reports a duration of zero only for what ends. -/
theorem durationKept_gone (h : p.durationTold c = some d) (hz : d.isZero = true) :
    p.durationKept c = none := by
  unfold durationTold at h
  cases hknown : c.knownDuration with
  | some known =>
    obtain rfl : known = d := by simpa [hknown] using h
    simp [knownDuration_nonzero hknown] at hz
  | none =>
    have hpolling : p.isPolling = true := by
      by_contra hn
      simp [hknown, hn] at h
    simp [durationKept, hknown, hpolling]

theorem durationKept_nonzero (hp : ∀ d, p.cache.duration = some d → d.isZero = false)
    (h : p.durationKept c = some d) : d.isZero = false := by
  rcases Option.or_eq_some_iff.mp h with hknown | ⟨-, hold⟩
  · exact knownDuration_nonzero hknown
  · split at hold
    · cases hold
    · exact hp d hold

/-- A position without a duration of its own reports zero only if none is kept. -/
theorem positionTold_gone (hp : ∀ d, p.cache.duration = some d → d.isZero = false)
    (hz : (p.positionTold a).isZero = true) : p.cache.duration = none ∨ tellsGone a = true := by
  unfold positionTold at hz
  cases he : a.isEndOfStream with
  | true => simp [tellsGone, he]
  | false =>
    cases hown : a.duration with
    | some own => exact .inr (by simpa [tellsGone, he, hown] using hz)
    | none =>
      cases hkept : p.cache.duration with
      | none => exact .inl rfl
      | some kept => simp [he, hown, hkept, hp kept hkept] at hz

end Gone

/-- A duration was kept when a position told that it was gone, and no duration was told since. -/
def KeptByPosition (h : List (Moment ρ)) (duration : Option Binary64) : Prop :=
  Since (fun m => m.position?.any tellsGone = true ∧ m.before.cache.duration = duration)
    (fun m => m.durationTold? = none) h

/-- A duration that was told to be gone is gone, unless a position told so. -/
structure Forgets (h : List (Moment ρ)) (p : Player ρ) : Prop where
  nonzero : ∀ d, p.cache.duration = some d → d.isZero = false
  live : ∀ d, lastTold Event.duration? (toldIn h) = some d → p.observer = .live
  gone : ∀ d, lastTold Event.duration? (toldIn h) = some d → d.isZero = true →
    p.cache.duration = none ∨ KeptByPosition h p.cache.duration

/-- A call that tells no duration to one who listens leaves the duration alone. -/
theorem Moment.duration_untold {m : Moment ρ} (hl : m.before.observer = .live)
    (h : m.durationTold? = none) : m.after.cache.duration = m.before.cache.duration := by
  have ht := m.times
  have htold : m.content?.bind m.before.contentTold = none := by
    rw [← h, durationTold?, ht.told, if_pos hl]
  rw [ht.duration, change?]
  cases hc : m.content? with
  | none => rfl
  | some content =>
    rw [hc, Option.bind_some] at htold
    cases content with
    | change c => exact durationKept_untold htold
    | _ => rfl

/-- One who is told that a duration is gone is told so by a change that ends what was playing, or by
a position. -/
theorem Moment.duration_gone {m : Moment ρ} {d : Binary64}
    (hp : ∀ d, m.before.cache.duration = some d → d.isZero = false)
    (h : m.durationTold? = some d) (hz : d.isZero = true) :
    m.after.cache.duration = none ∨
      (m.position?.any tellsGone = true ∧
        m.before.cache.duration = m.after.cache.duration) := by
  have ht := m.times
  obtain ⟨content, hc, htold⟩ : ∃ content, m.content? = some content ∧
      m.before.contentTold content = some d := by
    rw [durationTold?, ht.told] at h
    split at h
    · exact Option.bind_eq_some_iff.mp h
    · cases h
  rw [ht.duration, change?, position?, hc]
  cases content with
  | change c => exact .inl (durationKept_gone htold hz)
  | position a =>
    obtain rfl : m.before.positionTold a = d := by simpa [contentTold] using htold
    rcases positionTold_gone hp hz with hnone | hgone
    · exact .inl hnone
    · exact .inr ⟨by simpa [Content.position?] using hgone, rfl⟩
  | _ => cases htold

theorem Forgets.step {h : List (Moment ρ)} {m : Moment ρ} (hf : Forgets h m.before) :
    Forgets (h ++ [m]) m.after := by
  have ht := m.times
  have hobserver : m.after.observer = m.before.observer := (perform_make _ _ _).observer
  have hlast : lastTold Event.duration? (toldIn (h ++ [m])) =
      m.durationTold?.or (lastTold Event.duration? (toldIn h)) := by
    rw [toldIn_concat, lastTold_append, Moment.durationTold?]
  refine ⟨?_, ?_, ?_⟩
  · intro d hd
    rw [ht.duration] at hd
    cases hc : m.change? with
    | none => exact hf.nonzero d (by simpa [hc] using hd)
    | some c => exact durationKept_nonzero hf.nonzero (by simpa [hc] using hd)
  · intro d hd
    rw [hlast] at hd
    rw [hobserver]
    rcases Option.or_eq_some_iff.mp hd with hnow | ⟨-, hold⟩
    · by_contra hl
      simp [Moment.durationTold?, ht.told, hl] at hnow
    · exact hf.live d hold
  · intro d hd hz
    rw [hlast] at hd
    rcases Option.or_eq_some_iff.mp hd with hnow | ⟨hnone, hold⟩
    · rcases Moment.duration_gone hf.nonzero hnow hz with hgone | hkept
      · exact .inl hgone
      · exact .inr (History.since_concat.mpr (.inl hkept))
    · rw [Moment.duration_untold (hf.live d hold) hnone]
      rcases hf.gone d hold hz with hgone | hkept
      · exact .inl hgone
      · exact .inr (History.since_concat.mpr (.inr ⟨hkept, hnone⟩))

theorem run_forgets (run : Run ρ) : Forgets run.history run.player := by
  refine run.induct (P := Forgets) ?_ ?_
  · intro pageSize pollInterval forwards observer
    exact ⟨nofun, nofun, nofun⟩
  · intro h p now c hf
    exact Forgets.step (m := ⟨p, now, c⟩) hf

/-- While the last duration that was told is zero, no duration is kept, unless it was a position
that told so, by the end of the stream or by a duration of zero. What was kept before such a
position is kept after it, and a position without a duration of its own reports it again. -/
theorem gone_duration_is_forgotten_or_told_by_position (run : Run ρ) {told : Binary64}
    (ht : lastTold Event.duration? (toldIn run.history) = some told) (hz : told.isZero = true) :
    (run.player.cache.duration = none ∨
      Since
        (fun m => m.position?.any tellsGone = true ∧
          m.before.cache.duration = run.player.cache.duration)
        (fun m => m.durationTold? = none) run.history) ∧
    ∀ m : Moment ρ, m.before = run.player → ∀ a, m.position? = some a → a.isEndOfStream = false →
      a.duration = none → m.durationTold? = some (run.player.cache.duration.getD .zero) := by
  have hf := run_forgets run
  refine ⟨hf.gone told ht hz, ?_⟩
  intro m hm a ha he hd
  obtain ⟨content, hc, hcontent⟩ := Option.bind_eq_some_iff.mp ha
  have hl : m.before.observer = .live := hm ▸ hf.live told ht
  rw [Moment.durationTold?, m.times.told, if_pos hl, hc, Option.bind_some]
  cases content with
  | position b =>
    obtain rfl : b = a := by simpa [Content.position?] using hcontent
    simp [contentTold, positionTold, he, hd, hm]
  | _ => cases hcontent

def endsWhileKnown : Run Unit :=
  ⟨5, 1000, false, .live,
    [(0, .opened),
     (1, .receive <| Value.text <| .object
       [("method", .string "onchange"), ("params", .object [("duration", .integer 180)])]),
     (2, .receive <| Value.text <| .object
       [("method", .string "getposition"), ("params", .object [("position", .integer (-1))])])]⟩

/-- The end of the stream is told, and its duration is kept. -/
theorem end_of_stream_keeps_duration :
    lastTold Event.duration? (toldIn endsWhileKnown.history) = some .zero ∧
      Binary64.zero.isZero = true ∧ endsWhileKnown.player.cache.duration.isSome = true ∧
      Since
        (fun m => m.position?.any tellsGone = true ∧
          m.before.cache.duration = endsWhileKnown.player.cache.duration)
        (fun m => m.durationTold? = none) endsWhileKnown.history := by
  have ht : lastTold Event.duration? (toldIn endsWhileKnown.history) = some .zero := by
    decide +kernel
  have hkept : endsWhileKnown.player.cache.duration.isSome = true := by decide +kernel
  obtain ⟨hgone, -⟩ := gone_duration_is_forgotten_or_told_by_position endsWhileKnown ht rfl
  refine ⟨ht, rfl, hkept, hgone.resolve_left ?_⟩
  intro hnone
  simp [hnone] at hkept

end Player
end MediaRemote.Session
