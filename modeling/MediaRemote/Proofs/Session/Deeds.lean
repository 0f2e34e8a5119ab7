import MediaRemote.Proofs.Session.Negotiation

namespace MediaRemote.Session

open Json (Value)
open Wire (Action ActionDescriptor CapabilitySet Change Descriptor Listing Position Request Window)
open Step PlayerStep

variable {ρ : Type}

namespace Effect

def event? : Effect ρ → Option Event
  | .event e => some e
  | _ => none

def reaches (o : Observer) : Effect ρ → Bool
  | .event _ => o = .live
  | _ => true

end Effect

def eventsIn (effects : List (Effect ρ)) : List Event := effects.filterMap Effect.event?

theorem eventsIn_append (before after : List (Effect ρ)) :
    eventsIn (before ++ after) = eventsIn before ++ eventsIn after :=
  List.filterMap_append ..

@[simp]
theorem eventsIn_map (told : List Event) : eventsIn (told.map .event : List (Effect ρ)) = told := by
  induction told with
  | nil => rfl
  | cons e told ih => exact congrArg (e :: ·) ih

@[simp]
theorem eventsIn_singleton (e : Event) : eventsIn [(.event e : Effect ρ)] = [e] := rfl

def heard (o : Observer) (effects : List (Effect ρ)) : List (Effect ρ) :=
  effects.filter (·.reaches o)

theorem heard_append (o : Observer) (before after : List (Effect ρ)) :
    heard o (before ++ after) = heard o before ++ heard o after :=
  List.filter_append ..

theorem eventsIn_heard (o : Observer) (effects : List (Effect ρ)) :
    eventsIn (heard o effects) = if o = .live then eventsIn effects else [] := by
  induction effects with
  | nil => simp [heard, eventsIn]
  | cons e effects ih =>
    have hsplit : heard o (e :: effects) = heard o [e] ++ heard o effects :=
      heard_append o [e] effects
    have hsplit' : eventsIn (e :: effects) = eventsIn [e] ++ eventsIn effects :=
      eventsIn_append [e] effects
    rw [hsplit, eventsIn_append, hsplit', ih]
    cases e <;> cases o <;> rfl

namespace Rpc

/-- Sends a request whose result goes to nobody; while closed nothing is sent. -/
def ask (r : Rpc ρ) (q : Action × Value) : Rpc ρ :=
  if r.isOpen then r.extend [r.next q.1.method q.2 none] else r

def askAll (r : Rpc ρ) (qs : List (Action × Value)) : Rpc ρ := qs.foldl ask r

end Rpc

def windowQuestion (w : Window) : Action × Value :=
  (.list, .object [("first", .integer w.first), ("maxitems", .integer w.maxitems)])

structure Deed (ρ : Type) where
  /-- The descriptor that is in force from now on, if it is a new one. -/
  terms : Option Descriptor
  cache : Cache
  timer : Option Nat
  asks : List (Action × Value)
  gives : List (Effect ρ)

namespace Player

def idle (p : Player ρ) : Deed ρ := ⟨none, p.cache, p.timer, [], []⟩

def act (p : Player ρ) (d : Deed ρ) : Player ρ × List (Effect ρ) :=
  ({ p with
      rpc := p.rpc.askAll d.asks
      routes := d.terms.elim p.routes fun t => routesFor (some t)
      capabilities := d.terms.elim p.capabilities fun t => capabilitiesOf (some t)
      cache := d.cache
      timer := d.timer },
    heard p.observer d.gives)

theorem inOrder_nil_eq (p : Player ρ) : inOrder ([] : List (PlayerStep ρ)) p = (p, []) := rfl

theorem inOrder_cons_eq (f : PlayerStep ρ) (fs : List (PlayerStep ρ)) (p : Player ρ) :
    inOrder (f :: fs) p = ((inOrder fs (f p).1).1, (f p).2 ++ (inOrder fs (f p).1).2) := rfl

theorem emit_eq (e : Event) (p : Player ρ) : emit e p = (p, heard p.observer [.event e]) := by
  by_cases h : p.observer = .live <;> simp [emit, heard, Effect.reaches, h]

theorem send_eq (a : Action) (params : Value) (p : Player ρ) :
    send a params p = ({ p with rpc := p.rpc.ask (a, params) }, []) := by
  have hv : (Wire.Params.value params).toValue = .ok params := rfl
  cases ho : p.rpc.isOpen with
  | false => simp [send, request, Rpc.send_closed hv ho, Rpc.ask, ho]
  | true => simp [send, request, Rpc.send_open hv ho, Rpc.ask, ho, Rpc.extend]

theorem keepAndTell_eq (f : Cache → Cache) (e : Event) (p : Player ρ) :
    inOrder [update f, emit e] p =
      ({ p with cache := f p.cache }, heard p.observer [.event e]) := by
  simp [inOrder_cons_eq, inOrder_nil_eq, emit_eq, update, Step.modify]

/-- A field that may be absent is written and reported together, or neither. -/
theorem forSome_keepAndTell_eq {α : Type} {o : Option α} {f : α → Cache → Cache}
    {g : Cache → Cache} (hg : ∀ s, g s = o.elim s (f · s)) (e : α → Event) (p : Player ρ) :
    forSome o (fun a => inOrder [update (f a), emit (e a)]) p =
      ({ p with cache := g p.cache }, heard p.observer ((o.map e).toList.map .event)) := by
  cases o with
  | none => simp [forSome, Step.skip, hg, heard]
  | some a => simp [forSome, keepAndTell_eq, hg]

section Change

variable (now : Nat) (c : Change) (p : Player ρ)

/-- The duration that is kept after a change: a change without one ends what was playing. -/
def durationKept : Option Binary64 :=
  c.knownDuration.or (if p.isPolling then none else p.cache.duration)

/-- The duration that a change reports: that of what ends is reported as zero. -/
def durationTold : Option Binary64 := c.knownDuration.or (if p.isPolling then some .zero else none)

def timerSet : Option Nat := c.knownDuration.map fun _ => now + p.pollInterval

def pageAsked : List (Action × Value) :=
  if p.capabilities.contains .list then
    ((c.id.filter (0 ≤ ·)).map fun id => windowQuestion (.pageOf id.toNat p.pageSize)).toList
  else []

def nextTold : Option Int := c.next.filter (· ≠ -1)

def volumeTold : Option (Option Int) := if c.hasVolume then some c.volumeLevel else none

def cacheChanged : Cache :=
  { p.cache with
    id := c.id.or p.cache.id
    state := c.state.getD p.cache.state
    duration := p.durationKept c
    media := c.media.or p.cache.media
    info := c.info.or p.cache.info
    options := c.normalizedOptions.getD p.cache.options
    next := (nextTold c).or p.cache.next
    volume := (volumeTold c).getD p.cache.volume }

def changeTold : List Event :=
  (c.state.map (.stateChanged c.id)).toList ++
    ((p.durationTold c).map (.durationChanged c.id .zero)).toList ++
    (c.media.map (.mediaChanged c.id)).toList ++
    (c.info.map (.infoChanged c.id)).toList ++
    (c.normalizedOptions.map (.optionsChanged c.id)).toList ++
    ((nextTold c).map .nextChanged).toList ++
    ((volumeTold c).map .volumeChanged).toList

def changeDeed : Deed ρ :=
  ⟨none, p.cacheChanged c, p.timerSet now c, p.pageAsked c, (p.changeTold c).map .event⟩

theorem changeDuration_eq :
    changeDuration now c p =
      ({ p with
          cache := { p.cache with duration := p.durationKept c }
          timer := p.timerSet now c },
        heard p.observer
          (((p.durationTold c).map (.durationChanged c.id .zero)).toList.map .event)) := by
  unfold changeDuration durationKept durationTold timerSet
  cases c.knownDuration with
  | some d =>
    simp [inOrder_cons_eq, inOrder_nil_eq, update, emit_eq, startPolling, Step.modify]
  | none =>
    -- only a timer that runs is stopped
    obtain ⟨rpc, routes, capabilities, cache, pageSize, pollInterval, timer, forwards, observer⟩ :=
      p
    cases timer with
    | none => simp [onlyIf, isPolling, Step.skip, heard]
    | some due =>
      simp [onlyIf, isPolling, inOrder_cons_eq, inOrder_nil_eq, update, emit_eq, stopPolling,
        Step.modify]

theorem followList_eq :
    followList c p = ({ p with rpc := p.rpc.askAll (p.pageAsked c) }, []) := by
  unfold followList pageAsked
  cases hc : p.capabilities.contains .list with
  | false => cases c.id.filter (0 ≤ ·) <;> simp [forSome, onlyIf, Step.skip, Rpc.askAll]
  | true =>
    cases c.id.filter (0 ≤ ·) <;>
      simp [forSome, onlyIf, Step.skip, Rpc.askAll, sendList, send_eq, windowQuestion]

theorem change_eq : change now c p = p.act (p.changeDeed now c) := by
  have hid (q : Player ρ) :
      forSome c.id (fun id => update fun s => { s with id := some id }) q =
        ({ q with cache := { q.cache with id := c.id.or q.cache.id } }, []) := by
    cases c.id <;> rfl
  have hstate := forSome_keepAndTell_eq (ρ := ρ) (o := c.state)
    (f := fun state s => { s with state := state })
    (g := fun s => { s with state := c.state.getD s.state })
    (by cases c.state <;> simp) (.stateChanged c.id)
  have hmedia := forSome_keepAndTell_eq (ρ := ρ) (o := c.media)
    (f := fun media s => { s with media := some media })
    (g := fun s => { s with media := c.media.or s.media })
    (by cases c.media <;> simp) (.mediaChanged c.id)
  have hinfo := forSome_keepAndTell_eq (ρ := ρ) (o := c.info)
    (f := fun info s => { s with info := some info })
    (g := fun s => { s with info := c.info.or s.info })
    (by cases c.info <;> simp) (.infoChanged c.id)
  have hoptions := forSome_keepAndTell_eq (ρ := ρ) (o := c.normalizedOptions)
    (f := fun options s => { s with options := options })
    (g := fun s => { s with options := c.normalizedOptions.getD s.options })
    (by cases c.normalizedOptions <;> simp) (.optionsChanged c.id)
  have hnext (q : Player ρ) : forSome (c.next.filter (· ≠ -1)) setNext q =
      ({ q with cache := { q.cache with next := (nextTold c).or q.cache.next } },
        heard q.observer (((nextTold c).map .nextChanged).toList.map .event)) :=
    forSome_keepAndTell_eq (o := nextTold c) (f := fun next s => { s with next := some next })
      (g := fun s => { s with next := (nextTold c).or s.next })
      (by cases nextTold c <;> simp) .nextChanged q
  have hvolume (q : Player ρ) : onlyIf c.hasVolume (setVolume c.volumeLevel) q =
      ({ q with cache := { q.cache with volume := (volumeTold c).getD q.cache.volume } },
        heard q.observer (((volumeTold c).map .volumeChanged).toList.map .event)) := by
    unfold volumeTold
    cases c.hasVolume with
    | false => rfl
    | true => simp [onlyIf, setVolume, keepAndTell_eq]
  unfold change
  simp only [inOrder_cons_eq, inOrder_nil_eq, hid, hstate, changeDuration_eq, hmedia, hinfo,
    hoptions, followList_eq, hnext, hvolume]
  simp only [act, changeDeed, changeTold, List.map_append, heard_append, List.append_assoc,
    List.nil_append, List.append_nil]
  rfl

end Change

def unknown? : Action → Option String
  | .other method => some method
  | _ => none

def unknownTold (actions : List ActionDescriptor) : List (Effect ρ) :=
  actions.flatMap fun a => ((unknown? a.method).map fun m => .notice (.unknownAction m)).toList

def termsTold (d : Descriptor) : List (Effect ρ) :=
  [.event (.eventsAnnounced (d.events.map (·.method)))] ++ unknownTold d.actions ++
    [.notice (.supportedActions (d.actions.map (·.method.method)))] ++
    [.event (.actionsAnnounced d.actions)]

def stateAsked (d : Descriptor) : List (Action × Value) :=
  if d.actions.any (·.method = .status) then [(.status, .null)] else []

theorem eventsIn_unknownTold (actions : List ActionDescriptor) :
    eventsIn (unknownTold actions : List (Effect ρ)) = [] := by
  induction actions with
  | nil => rfl
  | cons a actions ih =>
    have hsplit : (unknownTold (a :: actions) : List (Effect ρ)) =
        ((unknown? a.method).map fun m => .notice (.unknownAction m)).toList ++
          unknownTold actions := rfl
    rw [hsplit, eventsIn_append, ih]
    cases unknown? a.method <;> rfl

@[simp]
theorem eventsIn_termsTold (d : Descriptor) : eventsIn (termsTold d : List (Effect ρ)) =
    [.eventsAnnounced (d.events.map (·.method)), .actionsAnnounced d.actions] := by
  simp only [termsTold, eventsIn_append, eventsIn_unknownTold]
  rfl

theorem announceAll_gives (actions : List ActionDescriptor) (p : Player ρ) :
    (inOrder (actions.map announce) p).2 = heard p.observer (unknownTold actions) := by
  induction actions generalizing p with
  | nil => rfl
  | cons a actions ih =>
    have hfirst : (announce a p).2 = heard p.observer
        ((unknown? a.method).map fun m => .notice (.unknownAction m)).toList := by
      obtain ⟨action, params⟩ := a
      cases action <;> rfl
    have hsame : (announce a p).1.observer = p.observer := by rw [announce_eq]
    rw [List.map_cons, inOrder_cons_eq, hfirst, ih, hsame, ← heard_append]
    rfl

theorem negotiate_eq (d : Descriptor) (p : Player ρ) :
    negotiate d p = p.act ⟨some d, p.cache, p.timer, stateAsked d, termsTold d⟩ := by
  have hnote (n : Notice) (q : Player ρ) : note n q = (q, heard q.observer [.notice n]) := rfl
  have hstatus (q : Player ρ) :
      onlyIf (d.actions.any (·.method = .status)) (send .status .null) q =
        ({ q with rpc := q.rpc.askAll (stateAsked d) }, []) := by
    unfold stateAsked
    cases d.actions.any (·.method = .status) with
    | false => rfl
    | true => simp [onlyIf, send_eq, Rpc.askAll]
  unfold negotiate
  simp only [inOrder_cons_eq, inOrder_nil_eq, Step.modify, emit_eq, announceAll_eq,
    announceAll_gives, hnote, hstatus]
  simp only [act, termsTold, heard_append, List.append_assoc, List.nil_append, List.append_nil]
  rfl

end Player

/-- What a payload says to the slot that handles it. -/
inductive Content
  | capabilities (d : Descriptor)
  | change (c : Change)
  | state (c : Change)
  | next (c : Change)
  | list (l : Listing)
  | options (payload : Value)
  | filter
  | info (c : Change)
  | setInfo (payload : Value)
  | volume (c : Change)
  | position (a : Position)

def Slot.read (slot : Slot) (payload : Value) : Option Content :=
  match slot with
  | .capabilities => (Descriptor.decoder.view payload).map .capabilities
  | .change => (Change.decoder.view payload).map .change
  | .state => (Change.decoder.view payload).map .state
  | .next => (Change.decoder.view payload).map .next
  | .list => (Listing.decoder.view payload).map .list
  | .options => some (.options payload)
  | .filter => some .filter
  | .info => (Change.decoder.view payload).map .info
  | .setInfo => some (.setInfo payload)
  | .volume => (Change.decoder.view payload).map .volume
  | .position => (Position.decoder.view payload).map .position

namespace Player

def telling (p : Player ρ) (s : Cache) (e : Event) : Deed ρ :=
  { p.idle with cache := s, gives := [.event e] }

def stateDeed (p : Player ρ) (c : Change) : Deed ρ :=
  match c.state with
  | some state =>
    p.telling { p.cache with id := c.id.or p.cache.id, state := state } (.stateChanged c.id state)
  | none => p.idle

def nextDeed (p : Player ρ) (c : Change) : Deed ρ :=
  match c.next with
  | some next => p.telling { p.cache with next := some next } (.nextChanged next)
  | none => p.idle

def positionDeed (p : Player ρ) (a : Position) : Deed ρ :=
  if a.isEndOfStream then
    { p.idle with
      cache := { p.cache with position := none }
      timer := none
      gives := [.event (.durationChanged (some (-1)) .zero .zero)] }
  else
    p.telling { p.cache with position := some (a.position.getD .zero) }
      (.durationChanged (some 0) (a.position.getD .zero)
        ((a.duration.or p.cache.duration).getD .zero))

/-- What a handler does as a whole, decided by the player before and by what its payload says: the
cache and the timer that it leaves, what it puts into force, asks for and gives out. -/
def deed (p : Player ρ) (now : Nat) (request : Option Request) : Content → Deed ρ
  | .capabilities d => ⟨some d, p.cache, p.timer, stateAsked d, termsTold d⟩
  | .change c => p.changeDeed now c
  | .state c => p.stateDeed c
  | .next c => p.nextDeed c
  | .list l =>
    p.telling { p.cache with list := some ⟨cursorOf request, l.playlist, l.count⟩ }
      (.listChanged l.playlist l.count)
  | .options payload =>
    p.telling { p.cache with options := Wire.optionNames payload }
      (.optionsChanged ((payload.member? "id").bind Value.signed?) (Wire.optionNames payload))
  | .filter =>
    { p.idle with
      asks := if p.capabilities.contains .list then [windowQuestion ⟨p.pageSize, 0⟩] else [] }
  | .info c =>
    { p.idle with
      gives := match c.info with
        | some info => [.event (.infoChanged c.id info)]
        | none => (c.message.map fun m => .notice (.playerMessage m)).toList }
  | .setInfo payload => { p.idle with gives := [.event (.infoSaved (payload.member? "message"))] }
  | .volume c => p.telling { p.cache with volume := c.volumeLevel } (.volumeChanged c.volumeLevel)
  | .position a => p.positionDeed a

theorem changeState_eq (c : Change) (p : Player ρ) :
    changeState c p = p.act (p.stateDeed c) := by
  unfold changeState stateDeed
  cases c.state with
  | none => rfl
  | some state =>
    cases c.id <;>
      simp [forSome, Step.skip, inOrder_cons_eq, inOrder_nil_eq, update, emit_eq, Step.modify, act,
        telling, idle, Rpc.askAll]

theorem changePosition_eq (a : Position) (p : Player ρ) :
    changePosition a p = p.act (p.positionDeed a) := by
  unfold changePosition positionDeed
  cases a.isEndOfStream with
  | true =>
    simp [inOrder_cons_eq, inOrder_nil_eq, update, emit_eq, Step.modify, act, idle, Rpc.askAll,
      stopPolling]
  | false => simp [keepAndTell_eq, act, telling, idle, Rpc.askAll]

theorem usable_eq {α : Type} {slot : Slot} {d : Json.Decoder α} {payload : Value}
    {f : α → PlayerStep ρ} (content : α → Content) {now : Nat} {request : Option Request}
    {p : Player ρ}
    (hread : slot.read payload = (d.view payload).map content)
    (h : ∀ a, f a p = p.act (p.deed now request (content a))) :
    usable slot d payload f p =
      (slot.read payload).elim (p, [.notice (.unusablePayload slot)])
        fun content => p.act (p.deed now request content) := by
  rw [hread]
  unfold usable
  cases d.view payload with
  | none => rfl
  | some a => exact h a

theorem invoke_eq (now : Nat) (slot : Slot) (payload : Value) (request : Option Request)
    (p : Player ρ) :
    invoke now slot payload request p =
      (slot.read payload).elim (p, [.notice (.unusablePayload slot)])
        fun content => p.act (p.deed now request content) := by
  cases slot with
  | capabilities => exact usable_eq .capabilities rfl fun d => negotiate_eq d p
  | change => exact usable_eq .change rfl fun c => change_eq now c p
  | state => exact usable_eq .state rfl fun c => changeState_eq c p
  | next =>
    refine usable_eq .next rfl fun c => ?_
    simp only [deed, nextDeed]
    cases c.next with
    | none => rfl
    | some next => exact keepAndTell_eq (fun s => { s with next := some next }) _ p
  | list => exact usable_eq .list rfl fun l => keepAndTell_eq _ _ p
  | options => exact keepAndTell_eq (fun s => { s with options := Wire.optionNames payload }) _ p
  | filter =>
    simp only [invoke, refreshList, Slot.read, Option.elim_some, deed]
    cases p.capabilities.contains .list with
    | false => rfl
    | true => simp [onlyIf, sendList, send_eq, act, idle, windowQuestion, Rpc.askAll, heard]
  | info =>
    refine usable_eq .info rfl fun c => ?_
    simp only [reportInfo, deed]
    cases c.info with
    | none => cases c.message <;> rfl
    | some info => exact emit_eq _ p
  | setInfo => exact emit_eq _ p
  | volume => exact usable_eq .volume rfl fun c => keepAndTell_eq _ _ p
  | position => exact usable_eq .position rfl fun a => changePosition_eq a p

end Player
end MediaRemote.Session
