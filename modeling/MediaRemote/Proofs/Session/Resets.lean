import MediaRemote.Proofs.Session.Commands

namespace MediaRemote.Session

open Json (Value)
open Wire (CapabilitySet Request)
open Step PlayerStep

variable {ρ : Type}

def unheard (effects : List (Effect ρ)) : List (Effect ρ) := effects.filter (·.event?.isNone)

theorem unheard_append (before after : List (Effect ρ)) :
    unheard (before ++ after) = unheard before ++ unheard after :=
  List.filter_append ..

/-- They reach whom they reach, whoever listens. -/
theorem unheard_heard (o : Observer) (effects : List (Effect ρ)) :
    unheard (heard o effects) = unheard effects := by
  have hreaches (e : Effect ρ) : (e.event?.isNone && e.reaches o) = e.event?.isNone := by
    cases e <;> rfl
  simp only [unheard, heard, List.filter_filter, hreaches]

namespace Player

def withCache (p : Player ρ) (s : Cache) : Player ρ := { p with cache := s }

structure Alike (r t : Player ρ × List (Effect ρ)) : Prop where
  player : ∃ s, t.1 = r.1.withCache s
  effects : unheard t.2 = unheard r.2

/-- The cache decides nothing but the cache and events. -/
def Blind (f : PlayerStep ρ) : Prop := ∀ p s, Alike (f p) (f (p.withCache s))

theorem Blind.skip : Blind (skip : PlayerStep ρ) := fun _ s => ⟨⟨s, rfl⟩, rfl⟩

theorem Blind.note (n : Notice) : Blind (note n : PlayerStep ρ) := fun _ s => ⟨⟨s, rfl⟩, rfl⟩

theorem Blind.emit (e : Event) : Blind (emit e : PlayerStep ρ) := by
  intro p s
  exact ⟨⟨s, rfl⟩, rfl⟩

theorem Blind.answer (i : Inbound ρ) : Blind (answer i) := fun _ s => ⟨⟨s, rfl⟩, rfl⟩

theorem Blind.andThen {f g : PlayerStep ρ} (hf : Blind f) (hg : Blind g) :
    Blind (f.andThen g) := by
  intro p s
  obtain ⟨⟨s', hplayer⟩, heffects⟩ := hf p s
  obtain ⟨⟨s'', hplayer'⟩, heffects'⟩ := hg (f p).1 s'
  simp only [Step.andThen]
  constructor
  · exact ⟨s'', by rw [hplayer, hplayer']⟩
  · rw [unheard_append, unheard_append, heffects, hplayer, heffects']

theorem Blind.nil : Blind (inOrder ([] : List (PlayerStep ρ))) := .skip

theorem Blind.cons {f : PlayerStep ρ} {fs : List (PlayerStep ρ)} (hf : Blind f)
    (hfs : Blind (inOrder fs)) : Blind (inOrder (f :: fs)) :=
  hf.andThen hfs

theorem Blind.onlyIf {f : PlayerStep ρ} (hf : Blind f) (c : Bool) : Blind (onlyIf c f) := by
  cases c with
  | false => exact .skip
  | true => exact hf

theorem Blind.forSome {α : Type} {f : α → PlayerStep ρ} (hf : ∀ a, Blind (f a)) (a : Option α) :
    Blind (forSome a f) := by
  cases a with
  | none => exact .skip
  | some a => exact hf a

/-- What a content starts, stops, asks for or puts into force does not depend on the cache. -/
theorem deed_withCache (p : Player ρ) (s : Cache) (now : Nat) (request : Option Request)
    (content : Content) :
    ∃ cache gives, (p.withCache s).deed now request content =
        { p.deed now request content with cache := cache, gives := gives } ∧
      unheard gives = unheard (p.deed now request content).gives := by
  cases content with
  | state c =>
    simp only [deed, stateDeed]
    cases c.state <;> exact ⟨_, _, rfl, rfl⟩
  | next c =>
    simp only [deed, nextDeed]
    cases c.next <;> exact ⟨_, _, rfl, rfl⟩
  | position a =>
    simp only [deed, positionDeed]
    split <;> exact ⟨_, _, rfl, rfl⟩
  | _ => exact ⟨_, _, rfl, rfl⟩

theorem Blind.invoke (now : Nat) (slot : Slot) (payload : Value) (request : Option Request) :
    Blind (invoke now slot payload request : PlayerStep ρ) := by
  intro p s
  rw [invoke_eq, invoke_eq]
  cases slot.read payload with
  | none => exact ⟨⟨s, rfl⟩, rfl⟩
  | some content =>
    obtain ⟨cache, gives, hdeed, hgives⟩ := deed_withCache p s now request content
    simp only [Option.elim_some, hdeed]
    refine ⟨⟨cache, rfl⟩, ?_⟩
    simp only [act, unheard_heard, hgives]

theorem Blind.route (now : Nat) (method : String) (i : Inbound ρ) : Blind (route now method i) := by
  intro p s
  simp only [Player.route]
  have hroutes : (p.withCache s).routes = p.routes := rfl
  rw [hroutes]
  split
  · exact Blind.invoke now _ _ _ p s
  · exact Blind.skip p s

theorem Blind.fail (error : Value) (i : Inbound ρ) : Blind (fail error i) :=
  .cons (.note _) (.cons (.emit _) .nil)

theorem Blind.dispatch (now : Nat) (i : Inbound ρ) : Blind (dispatch now i) := by
  intro p s
  refine Blind.cons ?_ (.cons (.onlyIf (.emit _) p.forwards) .nil) p s
  split
  · exact .fail _ i
  · exact .cons (.answer i) (.cons (.route now _ i) .nil)
  · exact .skip

theorem Blind.receive (now : Nat) (text : String) : Blind (receive now text : PlayerStep ρ) := by
  intro p s
  cases hr : p.rpc.receive text with
  | error fault =>
    have hr' : (p.withCache s).rpc.receive text = .error fault := hr
    rw [receive_error hr, receive_error hr']
    exact ⟨⟨s, rfl⟩, rfl⟩
  | ok out =>
    have hr' : (p.withCache s).rpc.receive text = .ok out := hr
    rw [receive_eq hr, receive_eq hr']
    exact Blind.cons (.forSome (fun id => .note _) _) (.cons (.dispatch now out.1) .nil)
      { p with rpc := out.2 } s

theorem Blind.opened : Blind (opened : PlayerStep ρ) := by
  intro p s
  rw [opened_eq, opened_eq]
  exact ⟨⟨s, rfl⟩, rfl⟩

theorem Blind.closed : Blind (closed : PlayerStep ρ) := by
  intro p s
  rw [closed_eq, closed_eq]
  exact ⟨⟨_, rfl⟩, rfl⟩

theorem Blind.resetSession : Blind (resetSession : PlayerStep ρ) := by
  intro p s
  obtain ⟨⟨s', hplayer⟩, heffects⟩ := Blind.closed p s
  rw [resetSession_eq, resetSession_eq, hplayer]
  exact ⟨⟨s', rfl⟩, heffects⟩

theorem Blind.execute (command : Command) : Blind (execute command : PlayerStep ρ) := by
  intro p s
  have hquestion : (p.withCache s).question command = p.question command := by
    cases command with
    | about id => cases id <;> rfl
    | _ => rfl
  rw [execute_eq, execute_eq, hquestion]
  exact ⟨⟨s, rfl⟩, rfl⟩

theorem Blind.askPosition : Blind (askPosition : PlayerStep ρ) := by
  intro p s
  simp only [Player.askPosition, send_eq]
  exact ⟨⟨s, rfl⟩, rfl⟩

theorem Blind.tick (now : Nat) :
    Blind (fun p : Player ρ => Step.onlyIf (p.timer.any (· ≤ now)) (Player.tick now) p) := by
  intro p s
  exact Blind.onlyIf (f := Player.tick now) (fun p s => ⟨⟨s, rfl⟩, rfl⟩) _ p s

/-- What a call gives back does not depend on the cache either. -/
theorem perform_withCache (p : Player ρ) (s : Cache) (now : Nat) (c : Call ρ) :
    (∃ s', ((p.withCache s).perform now c).player = (p.perform now c).player.withCache s') ∧
      unheard ((p.withCache s).perform now c).effects = unheard (p.perform now c).effects ∧
      ((p.withCache s).perform now c).id = (p.perform now c).id := by
  have hof {f : PlayerStep ρ} (hf : Blind f) :
      (∃ s', (Done.of (f (p.withCache s))).player = (Done.of (f p)).player.withCache s') ∧
        unheard (Done.of (f (p.withCache s))).effects = unheard (Done.of (f p)).effects ∧
        (Done.of (f (p.withCache s))).id = (Done.of (f p)).id :=
    ⟨(hf p s).player, (hf p s).effects, rfl⟩
  cases c with
  | opened => exact hof .opened
  | closed => exact hof .closed
  | resetSession => exact hof .resetSession
  | request method params reply =>
    have hrpc : (p.withCache s).rpc = p.rpc := rfl
    simp only [perform, request, hrpc]
    split <;> exact ⟨⟨s, rfl⟩, rfl, rfl⟩
  | execute command => exact hof (.execute command)
  | askPosition => exact hof .askPosition
  | tick =>
    have htick := hof (Blind.tick now)
    exact htick
  | receive text => exact hof (.receive now text)
  | drain => exact ⟨⟨s, rfl⟩, rfl, rfl⟩

namespace Moment

/-- Two players have the same frames to be taken, get the same call at the same time, and give back,
hand on and note the same. They then have the same requests in flight, number the next request
alike, and agree on routes, capabilities and the timer. -/
structure Repeats (m n : Moment ρ) : Prop where
  frames : n.before.drain.1 = m.before.drain.1
  now : n.now = m.now
  input : n.input = m.input
  id : n.done.id = m.done.id
  effects : unheard n.done.effects = unheard m.done.effects
  rpc : n.after.rpc = m.after.rpc
  routes : n.after.routes = m.after.routes
  capabilities : n.after.capabilities = m.after.capabilities
  timer : n.after.timer = m.after.timer

theorem repeats_withCache (m : Moment ρ) (s : Cache) :
    m.Repeats { m with before := m.before.withCache s } := by
  obtain ⟨⟨s', hplayer⟩, heffects, hid⟩ := perform_withCache m.before s m.now m.input
  constructor
  case frames | now | input => rfl
  case id => exact hid
  case effects => exact heffects
  all_goals
    simp only [after, done, hplayer]
    rfl

end Moment

theorem moments_withCache (p : Player ρ) (s : Cache) (calls : List (Nat × Call ρ)) :
    List.Forall₂ Moment.Repeats
      (History.moments (fun now c p => (p.perform now c).player) p calls)
      (History.moments (fun now c p => (p.perform now c).player) (p.withCache s) calls) := by
  induction calls generalizing p s with
  | nil => exact .nil
  | cons call calls ih =>
    obtain ⟨now, c⟩ := call
    obtain ⟨⟨s', hplayer⟩, -⟩ := perform_withCache p s now c
    refine .cons (Moment.repeats_withCache ⟨p, now, c⟩ s) ?_
    simp only [hplayer]
    exact ih _ s'

/-- Of the session nothing but the cache is left. -/
theorem resetSession_player (run : Run ρ) :
    (resetSession run.player).1 = run.start.withCache
      (if run.player.isConnected then { run.player.cache with state := .disconnected }
        else run.player.cache) := by
  obtain ⟨hpage, hpoll, hforwards, hobserver⟩ := run_make run
  rw [resetSession_eq, closed_eq]
  simp only [withCache, hpage, hpoll, hforwards, hobserver]
  rfl

/-- Whatever came before it, a reset leaves of the session nothing but the cache, and whatever is
called from then on, the player does as a new one of the same make does. -/
theorem reset_session_starts_anew (run : Run ρ) (now : Nat) (calls : List (Nat × Call ρ)) :
    (resetSession run.player).1 = run.start.withCache
      (if run.player.isConnected then { run.player.cache with state := .disconnected }
        else run.player.cache) ∧
    ∃ later,
      ({ run with calls := run.calls ++ (now, .resetSession) :: calls } : Run ρ).history =
        run.history ++ ⟨run.player, now, .resetSession⟩ :: later ∧
      List.Forall₂ Moment.Repeats ({ run with calls := calls } : Run ρ).history later := by
  have hreset := resetSession_player run
  refine ⟨hreset, History.moments _ (resetSession run.player).1 calls,
    History.moments_append .., ?_⟩
  rw [hreset]
  exact moments_withCache run.start _ calls

end Player
end MediaRemote.Session
