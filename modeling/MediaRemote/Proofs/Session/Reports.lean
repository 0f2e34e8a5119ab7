import MediaRemote.Proofs.Session.Moments

namespace MediaRemote.Session

open Json (Value)
open Wire (Change PlaybackState Request)

variable {ρ α : Type}

namespace Event

@[simp]
def state? : Event → Option PlaybackState
  | .stateChanged _ state => some state
  | _ => none

@[simp]
def media? : Event → Option Value
  | .mediaChanged _ media => some media
  | _ => none

@[simp]
def options? : Event → Option (List String)
  | .optionsChanged _ options => some options
  | _ => none

@[simp]
def next? : Event → Option Int
  | .nextChanged next => some next
  | _ => none

@[simp]
def volume? : Event → Option (Option Int)
  | .volumeChanged volume => some volume
  | _ => none

@[simp]
def list? : Event → Option (List Value × Nat)
  | .listChanged playlist count => some (playlist, count)
  | _ => none

@[simp]
def duration? : Event → Option Binary64
  | .durationChanged _ _ duration => some duration
  | _ => none

structure Unspoken (e : Event) : Prop where
  state : e.state? = none
  media : e.media? = none
  options : e.options? = none
  next : e.next? = none
  volume : e.volume? = none
  list : e.list? = none
  duration : e.duration? = none

theorem unspoken_of_aside {e : Event} (h : e.isAside = true) : e.Unspoken := by
  cases e with
  | connected | disconnected | error | message => constructor <;> rfl
  | _ => cases h

end Event

def lastTold (f : Event → Option α) (told : List Event) : Option α := (told.filterMap f).getLast?

section Last

variable {f : Event → Option α}

@[simp]
theorem lastTold_nil : lastTold f [] = none := rfl

@[simp]
theorem lastTold_append (before after : List Event) :
    lastTold f (before ++ after) = (lastTold f after).or (lastTold f before) := by
  simp [lastTold, List.filterMap_append, List.getLast?_append]

@[simp]
theorem lastTold_cons (e : Event) (told : List Event) :
    lastTold f (e :: told) = (lastTold f told).or (f e) := by
  have hone : lastTold f [e] = f e := by cases h : f e <;> simp [lastTold, h]
  rw [← hone, ← lastTold_append, List.singleton_append]

@[simp]
theorem lastTold_toList {β : Type} (g : β → Event) (o : Option β) :
    lastTold f (o.map g).toList = o.bind fun b => f (g b) := by
  cases o <;> simp

theorem lastTold_eq_none {told : List Event} (h : ∀ e ∈ told, f e = none) :
    lastTold f told = none := by
  unfold lastTold
  rw [List.filterMap_eq_nil_iff.mpr h]
  rfl

end Last

def ListWindow.shown (w : ListWindow) : List Value × Nat := (w.playlist, w.count)

/-- Each reported field is what was told of it last, and what it was if nothing was told. -/
structure Mirrors (before after : Cache) (told : List Event) : Prop where
  state : after.state = (lastTold Event.state? told).getD before.state
  media : after.media = (lastTold Event.media? told).or before.media
  options : after.options = (lastTold Event.options? told).getD before.options
  next : after.next = (lastTold Event.next? told).or before.next
  volume : after.volume = (lastTold Event.volume? told).getD before.volume
  list : after.list.map ListWindow.shown =
    (lastTold Event.list? told).or (before.list.map ListWindow.shown)

theorem Mirrors.append {a b c : Cache} {told more : List Event} (h : Mirrors a b told)
    (g : Mirrors b c more) : Mirrors a c (told ++ more) := by
  constructor
  · rw [g.state, h.state, lastTold_append]
    cases lastTold Event.state? more <;> rfl
  · rw [g.media, h.media, lastTold_append, Option.or_assoc]
  · rw [g.options, h.options, lastTold_append]
    cases lastTold Event.options? more <;> rfl
  · rw [g.next, h.next, lastTold_append, Option.or_assoc]
  · rw [g.volume, h.volume, lastTold_append]
    cases lastTold Event.volume? more <;> rfl
  · rw [g.list, h.list, lastTold_append, Option.or_assoc]

/-- The cache stays as it is while nothing is said of it. -/
theorem mirrors_aside {told : List Event} (h : ∀ e ∈ told, e.isAside = true) (s : Cache) :
    Mirrors s s told := by
  have hu : ∀ e ∈ told, e.Unspoken := fun e he => Event.unspoken_of_aside (h e he)
  constructor
  · rw [lastTold_eq_none fun e he => (hu e he).state, Option.getD_none]
  · rw [lastTold_eq_none fun e he => (hu e he).media, Option.none_or]
  · rw [lastTold_eq_none fun e he => (hu e he).options, Option.getD_none]
  · rw [lastTold_eq_none fun e he => (hu e he).next, Option.none_or]
  · rw [lastTold_eq_none fun e he => (hu e he).volume, Option.getD_none]
  · rw [lastTold_eq_none fun e he => (hu e he).list, Option.none_or]

namespace Player

theorem mirrors_change (p : Player ρ) (c : Change) :
    Mirrors p.cache (p.cacheChanged c) (p.changeTold c) := by
  constructor <;> simp [cacheChanged, changeTold]

/-- No slot keeps what it does not tell, or tells what it does not keep. -/
theorem mirrors_deed (p : Player ρ) (now : Nat) (request : Option Request) (content : Content) :
    Mirrors p.cache (p.deed now request content).cache
      (eventsIn (p.deed now request content).gives) := by
  have hidle : Mirrors p.cache p.cache [] := mirrors_aside (by simp) p.cache
  cases content with
  | change c =>
    simp only [deed, changeDeed, eventsIn_map]
    exact p.mirrors_change c
  | state c =>
    simp only [deed, stateDeed]
    cases c.state with
    | none => exact hidle
    | some state => constructor <;> simp [telling]
  | next c =>
    simp only [deed, nextDeed]
    cases c.next with
    | none => exact hidle
    | some next => constructor <;> simp [telling]
  | position a =>
    simp only [deed, positionDeed]
    split <;> constructor <;> simp [telling]
  | info c =>
    simp only [deed]
    cases c.info with
    | none => cases c.message <;> exact hidle
    | some info => constructor <;> simp [idle]
  | capabilities d => constructor <;> simp [deed]
  | filter => exact hidle
  | list | options | volume | setInfo =>
    constructor <;> simp [deed, telling, idle, ListWindow.shown]

/-- One who listens hears all. -/
theorem heard_live (effects : List (Effect ρ)) : heard .live effects = effects := by
  refine List.filter_eq_self.mpr ?_
  intro e _
  cases e <;> rfl

theorem Moment.Course.mirrors {m : Moment ρ} {s : Cache} {timer : Option Nat} {told : List Event}
    (h : m.Course s timer told) (hl : m.before.observer = .live) :
    Mirrors m.before.cache s told := by
  cases h with
  | closes hf =>
    cases hc : m.before.isConnected with
    | false =>
      have hnone : ∀ e ∈ ([] : List Event), e.isAside = true := nofun
      simpa [hc] using mirrors_aside hnone m.before.cache
    | true => constructor <;> simp [hl]
  | takes content hc before after ha =>
    rw [hl, heard_live]
    have hb := mirrors_aside (fun e he => ha e (List.mem_append_left after he)) m.before.cache
    have hd := m.before.mirrors_deed m.now m.answered? content
    have hafter := mirrors_aside (fun e he => ha e (List.mem_append_right before he))
      (m.deedOf content).cache
    exact (hb.append hd).append hafter
  | ticks => exact mirrors_aside (by simp) m.before.cache
  | rests hf hc told ha => exact mirrors_aside ha m.before.cache

theorem run_mirrors (run : Run ρ) (hl : run.observer = .live) :
    Mirrors .blank run.player.cache (toldIn run.history) := by
  have hrun : run.player.observer = .live →
      Mirrors .blank run.player.cache (toldIn run.history) := by
    refine run.induct
      (P := fun h p => p.observer = .live → Mirrors .blank p.cache (toldIn h)) ?_ ?_
    · intro pageSize pollInterval forwards observer _
      exact mirrors_aside (by simp [toldIn]) .blank
    · intro h p now c ih hlive
      have hp : p.observer = .live := (perform_make p now c).observer ▸ hlive
      rw [toldIn_concat]
      exact (ih hp).append ((Moment.course ⟨p, now, c⟩).mirrors hp)
  exact hrun ((run_make run).observer.trans hl)

/-- Playback state, media, options, next entry, volume and list are what was told of them last, and
as they are at first if nothing was told. -/
theorem cache_is_what_was_told_last (run : Run ρ) (hl : run.observer = .live) :
    run.player.cache.state = (lastTold Event.state? (toldIn run.history)).getD .stop ∧
    run.player.cache.media = lastTold Event.media? (toldIn run.history) ∧
    run.player.cache.options = (lastTold Event.options? (toldIn run.history)).getD [] ∧
    run.player.cache.next = lastTold Event.next? (toldIn run.history) ∧
    run.player.cache.volume = (lastTold Event.volume? (toldIn run.history)).getD none ∧
    run.player.cache.list.map (fun w => (w.playlist, w.count)) =
      lastTold Event.list? (toldIn run.history) := by
  obtain ⟨hstate, hmedia, hoptions, hnext, hvolume, hlist⟩ := run_mirrors run hl
  exact ⟨hstate, hmedia.trans Option.or_none, hoptions, hnext.trans Option.or_none, hvolume,
    hlist.trans Option.or_none⟩

def lostWhilePlaying : Run Unit :=
  ⟨5, 1000, false, .live,
    [(0, .opened),
     (1, .receive <| Value.text <| .object [("method", .string "onchange"), ("params",
       .object [("state", .string "play"), ("next", .integer 7), ("level", .integer 42)])]),
     (2, .closed)]⟩

theorem lost_while_playing_told :
    lostWhilePlaying.observer = .live ∧
      lastTold Event.state? (toldIn lostWhilePlaying.history) = some .disconnected ∧
      lastTold Event.volume? (toldIn lostWhilePlaying.history) = some (some 42) ∧
      lostWhilePlaying.player.cache.state = .disconnected ∧
      lostWhilePlaying.player.cache.volume = some 42 := by
  obtain ⟨hstate, -, -, -, hvolume, -⟩ := cache_is_what_was_told_last lostWhilePlaying rfl
  have hs : lastTold Event.state? (toldIn lostWhilePlaying.history) = some .disconnected := by
    decide +kernel
  have hv : lastTold Event.volume? (toldIn lostWhilePlaying.history) = some (some 42) := by
    decide +kernel
  rw [hs] at hstate
  rw [hv] at hvolume
  exact ⟨rfl, hs, hv, hstate, hvolume⟩

end Player
end MediaRemote.Session
