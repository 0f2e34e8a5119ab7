import MediaRemote.Session.Player

namespace MediaRemote.Session.Player

open Json (Value Decoder)
open Wire (Action ActionDescriptor CapabilitySet Change Descriptor Listing Position Request Window)
open Step PlayerStep

variable {ρ : Type}

/-- The routes that an announced action opens. Playing and pausing go together. -/
def routesOf : Action → List (Action × Slot)
  | .play | .pause => [(.play, .state), (.pause, .state)]
  | .stop => [(.stop, .state)]
  | .next => [(.next, .state)]
  | .change => [(.change, .change)]
  | .status => [(.status, .change)]
  | .setNext => [(.setNext, .next)]
  | .list => [(.list, .list)]
  | .options => [(.options, .options)]
  | .filter => [(.filter, .filter)]
  | .info => [(.info, .info)]
  | .setInfo => [(.setInfo, .setInfo)]
  | .volume => [(.volume, .volume)]
  | .append | .remove | .getPosition | .capabilities | .other _ => []

def openRoutes (r : Routes) (a : Action) : Routes :=
  (routesOf a).foldl (fun r e => r.register e.1.method e.2) r

def announce (a : ActionDescriptor) : PlayerStep ρ :=
  inOrder
    [modify fun p => { p with routes := openRoutes p.routes a.method },
     match a.method with
     | .other method => note (.unknownAction method)
     | _ => skip]

def negotiate (d : Descriptor) : PlayerStep ρ :=
  inOrder
    [modify fun p => { p with capabilities := .ofDescriptor d, routes := .permanent },
     emit (.eventsAnnounced (d.events.map (·.method))),
     inOrder (d.actions.map announce),
     note (.supportedActions (d.actions.map (·.method.method))),
     emit (.actionsAnnounced d.actions),
     onlyIf (d.actions.any (·.method = .status)) (send .status .null)]

/-- A known duration starts the timer; a change without one ends what was playing. -/
def changeDuration (now : Nat) (c : Change) : PlayerStep ρ := fun p =>
  match c.knownDuration with
  | some d =>
    inOrder
      [update fun s => { s with duration := some d },
       emit (.durationChanged c.id .zero d),
       startPolling now] p
  | none =>
    onlyIf p.isPolling
      (inOrder
        [update fun s => { s with duration := none },
         emit (.durationChanged c.id .zero .zero),
         stopPolling]) p

def followList (c : Change) : PlayerStep ρ := fun p =>
  forSome (c.id.filter (0 ≤ ·)) (fun id =>
    onlyIf (p.capabilities.contains .list) (sendList (.pageOf id.toNat p.pageSize))) p

def setNext (next : Int) : PlayerStep ρ :=
  inOrder [update fun s => { s with next := some next }, emit (.nextChanged next)]

def setVolume (level : Option Int) : PlayerStep ρ :=
  inOrder [update fun s => { s with volume := level }, emit (.volumeChanged level)]

/-- Takes in a partial update. Every present field is handled on its own. -/
def change (now : Nat) (c : Change) : PlayerStep ρ :=
  inOrder
    [forSome c.id fun id => update fun s => { s with id := some id },
     forSome c.state fun state => inOrder
      [update fun s => { s with state := state }, emit (.stateChanged c.id state)],
     changeDuration now c,
     forSome c.media fun media => inOrder
      [update fun s => { s with media := some media }, emit (.mediaChanged c.id media)],
     forSome c.info fun info => inOrder
      [update fun s => { s with info := some info }, emit (.infoChanged c.id info)],
     forSome c.normalizedOptions fun options => inOrder
      [update fun s => { s with options := options }, emit (.optionsChanged c.id options)],
     followList c,
     forSome (c.next.filter (· ≠ -1)) setNext,
     onlyIf c.hasVolume (setVolume c.volumeLevel)]

def changeState (c : Change) : PlayerStep ρ :=
  forSome c.state fun state => inOrder
    [forSome c.id fun id => update fun s => { s with id := some id },
     update fun s => { s with state := state },
     emit (.stateChanged c.id state)]

def cursorOf (request : Option Request) : Option Window :=
  request.bind fun r => Window.decoder.view r.params

def changeList (l : Listing) (request : Option Request) : PlayerStep ρ :=
  inOrder
    [update fun s => { s with list := some ⟨cursorOf request, l.playlist, l.count⟩ },
     emit (.listChanged l.playlist l.count)]

def changeOptions (payload : Value) : PlayerStep ρ :=
  let id := (payload.member? "id").bind Value.signed?
  let options := Wire.optionNames payload
  inOrder [update fun s => { s with options := options }, emit (.optionsChanged id options)]

/-- A filter changes the list, so its start is asked for again. -/
def refreshList : PlayerStep ρ := fun p =>
  onlyIf (p.capabilities.contains .list) (sendList ⟨p.pageSize, 0⟩) p

/-- Information about an entry is reported and not kept. -/
def reportInfo (c : Change) : PlayerStep ρ :=
  match c.info with
  | some info => emit (.infoChanged c.id info)
  | none => forSome c.message fun m => note (.playerMessage m)

/-- The end of the stream stops the timer; any other position is reported with the duration that
came with it, or else the known one. -/
def changePosition (a : Position) : PlayerStep ρ := fun p =>
  if a.isEndOfStream then
    inOrder
      [update fun s => { s with position := none },
       emit (.durationChanged (some (-1)) .zero .zero),
       stopPolling] p
  else
    let position := a.position.getD .zero
    let duration := (a.duration.orElse fun _ => p.cache.duration).getD .zero
    inOrder
      [update fun s => { s with position := some position },
       emit (.durationChanged (some 0) position duration)] p

def usable {α : Type} (slot : Slot) (d : Decoder α) (payload : Value) (f : α → PlayerStep ρ) :
    PlayerStep ρ :=
  match d.view payload with
  | some a => f a
  | none => note (.unusablePayload slot)

def invoke (now : Nat) (slot : Slot) (payload : Value) (request : Option Request) : PlayerStep ρ :=
  match slot with
  | .capabilities => usable slot Descriptor.decoder payload negotiate
  | .change => usable slot Change.decoder payload (change now)
  | .state => usable slot Change.decoder payload changeState
  | .next => usable slot Change.decoder payload fun c => forSome c.next setNext
  | .list => usable slot Listing.decoder payload fun l => changeList l request
  | .options => changeOptions payload
  | .filter => refreshList
  | .info => usable slot Change.decoder payload reportInfo
  | .setInfo => emit (.infoSaved (payload.member? "message"))
  | .volume => usable slot Change.decoder payload fun c => setVolume c.volumeLevel
  | .position => usable slot Position.decoder payload changePosition

def answer (i : Inbound ρ) : PlayerStep ρ := fun p =>
  (p, match i.reply with
    | some r => [.reply r i.message.result]
    | none => [])

def route (now : Nat) (method : String) (i : Inbound ρ) : PlayerStep ρ := fun p =>
  match p.routes.resolve method, i.message.payload with
  | some slot, some payload => invoke now slot payload i.request p
  | _, _ => skip p

def fail (error : Value) (i : Inbound ρ) : PlayerStep ρ :=
  inOrder
    [note (.requestFailed (i.request.map (·.method)) error),
     emit (.error error i.request)]

def dispatch (now : Nat) (i : Inbound ρ) : PlayerStep ρ := fun p =>
  inOrder
    [match i.message.error, i.message.method with
     | some error, _ => fail error i
     | none, some method => inOrder [answer i, route now method i]
     | none, none => skip,
     onlyIf p.forwards (emit (.message i.message))] p

/-- Handles one frame. -/
def receive (now : Nat) (text : String) : PlayerStep ρ := fun p =>
  match p.rpc.receive text with
  | .error fault => note (.malformedMessage fault) p
  | .ok (i, rpc) =>
    inOrder
      [modify fun p => { p with rpc := rpc },
       forSome i.strayId fun id => note (.strayResponse id),
       dispatch now i] p

end MediaRemote.Session.Player
