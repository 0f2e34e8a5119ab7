import MediaRemote.Proofs.Bar.Announcements
import MediaRemote.Proofs.Session.Commands
import MediaRemote.Proofs.Session.Told

namespace MediaRemote.Bar

open Session (Event Player)
open Session.Player (Moment Run latest)
open Wire (Action Descriptor Request)

variable {ρ : Type}

/-- Executing the command puts one request into the outbox and does nothing else. -/
def QueuesOne (p : Player ρ) (command : Command) : Prop :=
  ∃ q : Request,
    Player.execute command p = ({ p with rpc := p.rpc.extend [⟨q, none⟩] }, [])

theorem queuesOne_of_question {p : Player ρ} (hc : p.isConnected = true) {command : Command}
    {x : Action × Json.Value} (hq : p.question command = some x)
    (hn : Session.Notice.ofCommand? command = none) : QueuesOne p command := by
  refine ⟨.new p.rpc.nextId x.1.method x.2, ?_⟩
  rw [Player.execute_eq, Player.asking_eq, hq, hn]
  simp [Player.requestFor, hc]

/-- A question is asked if one of the actions that let it pass was announced. -/
theorem queuesOne_of_gated {p : Player ρ} (hc : p.isConnected = true) {command : Command}
    {gate : List Action} {a : Action} {params : Json.Value}
    (hq : p.question command = p.gated gate a params)
    (hn : Session.Notice.ofCommand? command = none)
    (hg : ∃ b ∈ gate, p.capabilities.contains b = true) : QueuesOne p command := by
  have hany : p.capabilities.containsAny gate = true := List.any_eq_true.mpr hg
  have hquestion : p.question command = some (a, params) := by rw [hq, Player.gated, if_pos hany]
  exact queuesOne_of_question hc hquestion hn

/-- The label of a button stands for a command, and the command is asked. -/
def Works (b : CommandBar) (p : Player ρ) (label : String) : Prop :=
  ∃ command, b.listen label = some command ∧ QueuesOne p command

section Works

variable {p : Player ρ} (hc : p.isConnected = true) (b : CommandBar)

include hc

theorem works_next (h : p.capabilities.contains .next = true) : Works b p "next" :=
  ⟨.next, rfl, queuesOne_of_gated hc rfl rfl ⟨.next, by simp, h⟩⟩

theorem works_stop (h : p.capabilities.contains .stop = true) : Works b p "stop" :=
  ⟨.stop, rfl, queuesOne_of_gated hc rfl rfl ⟨.stop, by simp, h⟩⟩

/-- Whichever of its two commands the toggle stands for, pausing lets it pass. -/
theorem works_toggle (h : p.capabilities.contains .pause = true) :
    Works b p "toggle play pause" := by
  refine ⟨if b.state = .play then .pause else .play, rfl, ?_⟩
  split
  · exact queuesOne_of_gated hc rfl rfl ⟨.pause, by simp, h⟩
  · exact queuesOne_of_gated hc rfl rfl ⟨.pause, by simp, h⟩

theorem works_volume (h : p.capabilities.contains .volume = true) :
    Works b p "volume down" ∧ Works b p "volume up" :=
  ⟨⟨.volume (some (-volumeStep)), rfl, queuesOne_of_gated hc rfl rfl ⟨.volume, by simp, h⟩⟩,
    .volume (some volumeStep), rfl, queuesOne_of_gated hc rfl rfl ⟨.volume, by simp, h⟩⟩

theorem works_random (h : p.capabilities.contains .options = true) :
    Works b p "random on" ∧ Works b p "random off" :=
  ⟨⟨.shuffle true, rfl, queuesOne_of_gated hc rfl rfl ⟨.options, by simp, h⟩⟩,
    .shuffle false, rfl, queuesOne_of_gated hc rfl rfl ⟨.options, by simp, h⟩⟩

theorem works_repeat (h : p.capabilities.contains .options = true) :
    Works b p "repeat on" ∧ Works b p "repeat off" :=
  ⟨⟨.loop true, rfl, queuesOne_of_gated hc rfl rfl ⟨.options, by simp, h⟩⟩,
    .loop false, rfl, queuesOne_of_gated hc rfl rfl ⟨.options, by simp, h⟩⟩

end Works

/-- The script that a click calls: what stands before the parenthesis. -/
def called (click : String) : String := String.ofList (click.toList.takeWhile (· ≠ '('))

def switchOf (script : String) : Option String :=
  match script with
  | "toggleshuffle" => some "random"
  | "togglerepeat" => some "repeat"
  | _ => none

theorem called_of_switch {actions : List Wire.ActionDescriptor} {t : Toggle}
    (h : t ∈ switches actions) : t.button.click.map called = some t.script := by
  rcases List.mem_pair.mp (mem_toggles_of_switch h) with rfl | rfl <;> decide

theorem mem_scripts {actions : List Wire.ActionDescriptor} {script : String} :
    script ∈ (announcement actions).scripts ↔ ∃ t ∈ switches actions, t.script = script := by
  simp [announcement_eq, mem_listed]

/-- A script is listed once, however many buttons call it. -/
theorem count_scripts {actions : List Wire.ActionDescriptor} {script : String}
    (h : script ∈ (announcement actions).scripts) :
    (announcement actions).scripts.count script = 1 := by
  have hnodup : (announcement actions).scripts.Nodup := by
    rw [announcement_eq]
    exact nodup_listed List.nodup_nil _
  exact List.count_eq_one_of_mem hnodup h

theorem switch_button_mem {actions : List Wire.ActionDescriptor} {t : Toggle}
    (h : t ∈ switches actions) : t.button ∈ (announcement actions).groups.flatten := by
  rw [announcement_eq]
  simp only [List.flatten_cons, List.mem_append, List.mem_map]
  exact .inr (.inl ⟨t, h, rfl⟩)

section Announced

variable {p : Player ρ} {actions : List Wire.ActionDescriptor}
  (hp : ∀ a ∈ actions, p.capabilities.contains a.method = true) (hc : p.isConnected = true)

include hp hc

theorem labelled_works {button : Button} (h : button ∈ (announcement actions).groups.flatten)
    (hclick : button.click = none) :
    ∃ label, button.name = some label ∧ ∀ b, Works b p label := by
  cases madeFor_of_mem h with
  | next a ha hm => exact ⟨"next", rfl, fun b => works_next hc b (hm ▸ hp a ha)⟩
  | stop a ha hm => exact ⟨"stop", rfl, fun b => works_stop hc b (hm ▸ hp a ha)⟩
  | toggle a ha hm =>
    exact ⟨"toggle play pause", rfl, fun b => works_toggle hc b (hm ▸ hp a ha)⟩
  | option t ht =>
    have hcalled := called_of_switch ht
    rw [hclick] at hcalled
    cases hcalled
  | volumeDown a ha hm =>
    exact ⟨"volume down", rfl, fun b => (works_volume hc b (hm ▸ hp a ha)).1⟩
  | volumeUp a ha hm => exact ⟨"volume up", rfl, fun b => (works_volume hc b (hm ▸ hp a ha)).2⟩

theorem switch_works {t : Toggle} (h : t ∈ switches actions) :
    ∃ switch, switchOf t.script = some switch ∧
      ∀ b, Works b p (switch ++ " on") ∧ Works b p (switch ++ " off") := by
  obtain ⟨a, ha, hm, -⟩ := mem_switches.mp h
  have hoptions : p.capabilities.contains .options = true := hm ▸ hp a ha
  rcases List.mem_pair.mp (mem_toggles_of_switch h) with rfl | rfl
  · exact ⟨"random", rfl, fun b => works_random hc b hoptions⟩
  · exact ⟨"repeat", rfl, fun b => works_repeat hc b hoptions⟩

theorem clicked_works {button : Button} (h : button ∈ (announcement actions).groups.flatten)
    {click : String} (hclick : button.click = some click) :
    (announcement actions).scripts.count (called click) = 1 ∧
      ∃ switch, switchOf (called click) = some switch ∧
        ∀ b, Works b p (switch ++ " on") ∧ Works b p (switch ++ " off") := by
  cases madeFor_of_mem h with
  | option t ht =>
    have hcalled : called click = t.script := by simpa [hclick] using called_of_switch ht
    rw [hcalled]
    exact ⟨count_scripts (mem_scripts.mpr ⟨t, ht, rfl⟩), switch_works hp hc ht⟩
  | next | stop | toggle | volumeDown | volumeUp => cases hclick

end Announced

/-- What a connected player negotiated last was told, and the bar answers with a control all of
whose buttons work, whatever state the bar is in: a button without a script has a label that stands
for a command which is asked, and one with a script calls a script that is listed once and turns on
and off what is asked. No other script is listed. -/
theorem every_button_works (run : Run ρ) (d : Descriptor) (hd : latest run.history = some d)
    (hc : run.player.isConnected = true) (b : CommandBar) :
    ∃ control, (b.handle (.actionsAnnounced d.actions)).2 = some control ∧
      (∃ m ∈ run.history, m.descriptor? = some d ∧
        (run.observer = .live → .actionsAnnounced d.actions ∈ m.events)) ∧
      (∀ button ∈ control.groups.flatten, button.click = none →
        ∃ label, button.name = some label ∧ ∀ bar, Works bar run.player label) ∧
      (∀ button ∈ control.groups.flatten, ∀ click, button.click = some click →
        control.scripts.count (called click) = 1 ∧
          ∃ switch, switchOf (called click) = some switch ∧
            ∀ bar, Works bar run.player (switch ++ " on") ∧
              Works bar run.player (switch ++ " off")) ∧
      ∀ script ∈ control.scripts,
        ∃ button ∈ control.groups.flatten, button.click.map called = some script := by
  have hp : ∀ a ∈ d.actions, run.player.capabilities.contains a.method = true := by
    intro a ha
    rw [(Player.run_negotiated run).capabilities, hd, Player.contains_capabilitiesOf]
    exact List.mem_map_of_mem ha
  obtain ⟨before, m, after, hsplit, hm, -⟩ := (Player.latest_eq_some run.history d).mp hd
  have hmem : m ∈ run.history := by simp [hsplit]
  refine ⟨announcement d.actions, rfl,
    ⟨m, hmem, hm, Player.announced_of_descriptor hmem hm⟩, ?_, ?_, ?_⟩
  · exact fun button hbutton hclick => labelled_works hp hc hbutton hclick
  · exact fun button hbutton click hclick => clicked_works hp hc hbutton hclick
  · intro script hscript
    obtain ⟨t, ht, rfl⟩ := mem_scripts.mp hscript
    exact ⟨t.button, switch_button_mem ht, called_of_switch ht⟩

def withOptions : Run Unit :=
  ⟨5, 1000, false, .live,
    [(0, .opened),
     (1, .receive <| "\x7b\"id\":0,\"result\":\x7b\"actions\":[\x7b\"method\":\"pause\"\x7d," ++
      "\x7b\"method\":\"options\",\"params\":[\"random\",\"loop\",1,\"random\"]\x7d," ++
      "\x7b\"method\":\"eject\"\x7d]\x7d\x7d")]⟩

theorem buttons_of_withOptions :
    ∃ d, latest withOptions.history = some d ∧ withOptions.player.isConnected = true ∧
      announcement d.actions =
        ⟨true, .update, [[.labelled "playpause" "play" "toggle play pause"],
          [shuffleToggle.button, repeatToggle.button, shuffleToggle.button], []],
          ["toggleshuffle", "togglerepeat"]⟩ ∧
      ∀ bar, Works bar withOptions.player "toggle play pause" ∧
        Works bar withOptions.player "random off" := by
  have hcontrol : (latest withOptions.history).map (fun d => announcement d.actions) =
      some ⟨true, .update, [[.labelled "playpause" "play" "toggle play pause"],
        [shuffleToggle.button, repeatToggle.button, shuffleToggle.button], []],
        ["toggleshuffle", "togglerepeat"]⟩ := by decide +kernel
  have hc : withOptions.player.isConnected = true := by decide +kernel
  obtain ⟨d, hd, hannounced⟩ := Option.map_eq_some_iff.mp hcontrol
  obtain ⟨control, hloaded, -, hlabelled, hclicked, -⟩ :=
    every_button_works withOptions d hd hc (CommandBar.new defaultId).1
  obtain rfl : announcement d.actions = control := Option.some.inj hloaded
  rw [hannounced] at hlabelled hclicked
  obtain ⟨label, hlabel, htoggle⟩ :=
    hlabelled (.labelled "playpause" "play" "toggle play pause") (by simp) rfl
  obtain rfl : "toggle play pause" = label := Option.some.inj hlabel
  obtain ⟨-, switch, hswitch, hshuffle⟩ := hclicked shuffleToggle.button (by simp) _ rfl
  obtain rfl : "random" = switch := Option.some.inj hswitch
  exact ⟨d, hd, hc, hannounced, fun bar => ⟨htoggle bar, (hshuffle bar).2⟩⟩

end MediaRemote.Bar
