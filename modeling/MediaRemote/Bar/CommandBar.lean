import MediaRemote.Bar.Control
import MediaRemote.Command
import MediaRemote.Session.Event

namespace MediaRemote.Bar

open Session (Event)
open Wire (Action ActionDescriptor PlaybackState)

/-- A control that is loaded under an identifier; none announces the bar before anything is
known. -/
structure Load where
  id : String
  control : Option Control

/-- What a bar has to know of its player. It is driven by the events of the player: it loads
controls into its host and maps the labels of buttons onto commands. -/
structure CommandBar where
  id : String
  state : PlaybackState
  /-- What the last announcement of actions loaded. -/
  announced : Option Control
  deriving Inhabited

def defaultId : String := "playercmd"

structure Toggle where
  option : String
  button : Button
  script : String

def shuffleToggle : Toggle where
  option := "random"
  button :=
    { Button.labelled "shuffle" "random" "toggle shuffle" with
      click := some "toggleshuffle(!$(this).hasClass('btn-primary'));" }
  script := "toggleshuffle"

def repeatToggle : Toggle where
  option := "loop"
  button :=
    { Button.labelled "repeat" "repeat" "toggle repeat" with
      click := some "togglerepeat(!$(this).hasClass('btn-primary'));" }
  script := "togglerepeat"

def toggle? (option : String) : Option Toggle :=
  [shuffleToggle, repeatToggle].find? (·.option == option)

def transportButtons (a : ActionDescriptor) : List Button :=
  match a.method with
  | .next => [.labelled "next" "fast-forward" "next"]
  | .stop => [.labelled "stop" "stop" "stop"]
  | .pause => [.labelled "playpause" "play" "toggle play pause"]
  | _ => []

def toggles (a : ActionDescriptor) : List Toggle :=
  match a.method with
  | .options => a.paramNames.filterMap toggle?
  | _ => []

def volumeButtons (a : ActionDescriptor) : List Button :=
  match a.method with
  | .volume =>
    [.labelled "volume-down" "volume-down" "volume down",
     .labelled "volume-up" "volume-up" "volume up"]
  | _ => []

def announcement (actions : List ActionDescriptor) : Control :=
  let switches := actions.flatMap toggles
  let blank := (Control.new true .update).addGroup (actions.flatMap transportButtons)
  let filled :=
    (blank.addGroup (switches.map (·.button))).addGroup (actions.flatMap volumeButtons)
  switches.foldl (fun c t => c.addScript t.script) filled

def optionClass (name : String) (classes : String) : Option Button :=
  (toggle? name).map fun t => { Button.bare t.button.id with classes := some classes }

def optionButton? (option : String) : Option Button :=
  match option.toList with
  | '!' :: name => optionClass (String.ofList name) "!btn-primary"
  | _ => optionClass option "btn-primary"

def optionsRefresh (options : List String) : Control :=
  (Control.new true .refresh).addGroup (options.filterMap optionButton?)

/-- Playing shows the pause glyph, every other state the play glyph. -/
def stateControl (state : PlaybackState) : Control :=
  match state with
  | .disconnected => .new true .remove
  | state =>
    let glyph := if state = .play then "glyphicon-pause" else "glyphicon-play"
    (Control.new true .refresh).addGroup
      [{ Button.bare "playpause" with glyphicon := some glyph }]

namespace CommandBar

def new (id : String) : CommandBar × Load := (⟨id, .stop, none⟩, ⟨id, none⟩)

def takeDown (b : CommandBar) : Control :=
  { b.announced.getD (.new false .update) with enabled := true, action := .remove }

def handle (b : CommandBar) (e : Event) : CommandBar × Option Control :=
  match e with
  | .actionsAnnounced actions =>
    ({ b with announced := some (announcement actions) }, some (announcement actions))
  | .optionsChanged _ options => (b, some (optionsRefresh options))
  | .stateChanged _ state => ({ b with state := state }, some (stateControl state))
  | .disconnected => (b, some b.takeDown)
  | _ => (b, none)

def handleAll (b : CommandBar) : List Event → CommandBar × List Load
  | [] => (b, [])
  | e :: rest =>
    let (b, control) := b.handle e
    let (last, loads) := b.handleAll rest
    (last, (control.map fun c => ⟨b.id, some c⟩).toList ++ loads)

def listen (b : CommandBar) (label : String) : Option Command :=
  match label with
  | "toggle play pause" => some (if b.state = .play then .pause else .play)
  | "stop" => some .stop
  | "next" => some .next
  | "random on" => some (.shuffle true)
  | "random off" => some (.shuffle false)
  | "repeat on" => some (.loop true)
  | "repeat off" => some (.loop false)
  | "volume down" => some (.volume (some (-volumeStep)))
  | "volume up" => some (.volume (some volumeStep))
  | _ => none

end CommandBar
end MediaRemote.Bar
