import MediaRemote.Proofs.Bar.Announcements
import MediaRemote.Proofs.Histories

namespace MediaRemote.Bar

open History (Since since_concat not_since_nil)
open Session (Event)
open Wire (PlaybackState)

/-- The button `b` shows what `n` gives; what `n` leaves open may be anything. -/
structure Button.Gives (n b : Button) : Prop where
  id : b.id = n.id
  glyphicon : ∀ g, n.glyphicon = some g → b.glyphicon = some g
  name : ∀ t, n.name = some t → b.name = some t
  click : ∀ s, n.click = some s → b.click = some s

/-- A host of command bars. What it shows of a control are buttons, or nothing once it is taken
down. Whether a refresh adds buttons that were not shown is left to the host. -/
structure Host where
  apply : Option (List Button) → Control → Option (List Button)
  update : ∀ shown c, c.action = .update → apply shown c = some c.groups.flatten
  remove : ∀ shown c, c.action = .remove → apply shown c = none
  refresh : ∀ shown c, c.action = .refresh → ∀ after, apply shown c = some after → ∀ b ∈ after,
    (∃ before, shown = some before ∧ b ∈ before ∧ ∀ n ∈ c.groups.flatten, n.id ≠ b.id) ∨
      ∃ n ∈ c.groups.flatten, n.Gives b

/-- Applies what is loaded; a load without a control shows nothing new. -/
def Host.take (host : Host) (shown : Option (List Button)) (l : Load) : Option (List Button) :=
  match l.control with
  | some c => host.apply shown c
  | none => shown

def Host.shown (host : Host) (loads : List Load) : Option (List Button) :=
  loads.foldl host.take none

theorem CommandBar.handle_id (b : CommandBar) (e : Event) : (b.handle e).1.id = b.id := by
  cases e <;> rfl

theorem CommandBar.handleAll_concat (b : CommandBar) (events : List Event) (e : Event) :
    b.handleAll (events ++ [e]) =
      (((b.handleAll events).1.handle e).1, (b.handleAll events).2 ++
        (((b.handleAll events).1.handle e).2.map fun c => (⟨b.id, some c⟩ : Load)).toList) := by
  induction events generalizing b with
  | nil => simp [handleAll, handle_id]
  | cons f rest ih => simp [handleAll, ih, handle_id]

def Host.showing (host : Host) (id : String) (events : List Event) : Option (List Button) :=
  host.shown ((CommandBar.new id).2 :: ((CommandBar.new id).1.handleAll events).2)

def CommandBar.after (id : String) (events : List Event) : CommandBar :=
  ((CommandBar.new id).1.handleAll events).1

theorem CommandBar.after_concat (id : String) (events : List Event) (e : Event) :
    after id (events ++ [e]) = ((after id events).handle e).1 := by
  rw [after, handleAll_concat]
  rfl

/-- An event changes what is shown by the control that the bar loads for it. -/
theorem Host.showing_concat (host : Host) (id : String) (events : List Event) (e : Event) :
    host.showing id (events ++ [e]) =
      match ((CommandBar.after id events).handle e).2 with
      | some c => host.apply (host.showing id events) c
      | none => host.showing id events := by
  simp only [showing, shown, CommandBar.handleAll_concat, ← List.cons_append, List.foldl_append]
  cases hload : ((CommandBar.after id events).handle e).2 with
  | none =>
    rw [CommandBar.after] at hload
    rw [hload]
    rfl
  | some c =>
    rw [CommandBar.after] at hload
    rw [hload]
    rfl

def Announces : Event → Prop
  | .actionsAnnounced _ => True
  | _ => False

def KeepsState : Event → Prop
  | .stateChanged _ _ => False
  | _ => True

/-- The actions were announced and no state has been told since. -/
def Unfollowed (events : List Event) : Prop := Since Announces KeepsState events

theorem unfollowed_concat {events : List Event} {e : Event} :
    Unfollowed (events ++ [e]) ↔ Announces e ∨ Unfollowed events ∧ KeepsState e :=
  since_concat

def toggleId : String := "playpause"
def toggleLabel : String := "toggle play pause"

def stateGlyph (s : PlaybackState) : String :=
  if s = .play then "glyphicon-pause" else "glyphicon-play"

def stateButton (s : PlaybackState) : Button :=
  { Button.bare toggleId with glyphicon := some (stateGlyph s) }

theorem stateControl_eq {s : PlaybackState} (h : s ≠ .disconnected) :
    stateControl s = (Control.new true .refresh).addGroup [stateButton s] := by
  cases s <;> first | rfl | exact absurd rfl h

/-- An announced toggle has the play glyph. -/
theorem announced_toggle {actions : List Wire.ActionDescriptor} {b : Button}
    (h : b ∈ (announcement actions).groups.flatten) (hid : b.id = toggleId) :
    b.glyphicon = some "play" := by
  cases madeFor_of_mem h with
  | toggle => rfl
  | option t ht => exact absurd hid (id_ne_toggle (mem_toggles_of_switch ht))
  | _ => exact absurd hid (by decide)

/-- No button of an option is the toggle. -/
theorem optionButton_ne_toggle {option : String} {n : Button}
    (h : optionButton? option = some n) : n.id ≠ toggleId := by
  have hclass {name classes : String} (h : optionClass name classes = some n) :
      n.id ≠ toggleId := by
    obtain ⟨t, ht, rfl⟩ := Option.map_eq_some_iff.mp h
    exact id_ne_toggle (toggle?_eq_some.mp ht).1
  unfold optionButton? at h
  split at h
  · exact hclass h
  · exact hclass h

/-- The glyph of a toggle that is shown: the one it was announced with until a state is told, from
then on that of the state. -/
structure Follows (events : List Event) (state : PlaybackState) (b : Button) : Prop where
  announced : Unfollowed events → b.glyphicon = some "play"
  told : ¬ Unfollowed events → b.glyphicon = some (stateGlyph state)

/-- Other events leave the glyph as it is. -/
theorem Follows.concat {events : List Event} {state : PlaybackState} {b : Button} {e : Event}
    (h : Follows events state b) (ha : ¬ Announces e) (hk : KeepsState e) :
    Follows (events ++ [e]) state b := by
  have hiff : Unfollowed (events ++ [e]) ↔ Unfollowed events := by
    rw [unfollowed_concat]
    simp [ha, hk]
  exact ⟨fun hu => h.announced (hiff.mp hu), fun hu => h.told fun hold => hu (hiff.mpr hold)⟩

theorem Host.update_shown {host : Host} {shown : Option (List Button)} {c : Control}
    (hc : c.action = .update) {after : List Button} (h : host.apply shown c = some after) :
    after = c.groups.flatten := by
  rw [host.update shown c hc] at h
  exact (Option.some.inj h).symm

theorem Host.remove_shown {host : Host} {shown : Option (List Button)} {c : Control}
    (hc : c.action = .remove) {after : List Button} : host.apply shown c ≠ some after := by
  rw [host.remove shown c hc]
  nofun

/-- A state that is told sets the glyph of every toggle that is still shown. -/
theorem Host.state_glyph {host : Host} {state : PlaybackState} {shown : Option (List Button)}
    {after : List Button} (h : host.apply shown (stateControl state) = some after) {b : Button}
    (hb : b ∈ after) (hid : b.id = toggleId) : b.glyphicon = some (stateGlyph state) := by
  by_cases hs : state = .disconnected
  · subst hs
    exact absurd h (Host.remove_shown rfl)
  · rw [stateControl_eq hs] at h
    rcases host.refresh _ _ rfl after h b hb with ⟨_, -, -, hne⟩ | ⟨n, hn, hgives⟩
    · have hmem : stateButton state ∈
          ((Control.new true .refresh).addGroup [stateButton state]).groups.flatten := by
        simp [Control.addGroup, Control.new]
      exact absurd hid.symm (hne _ hmem)
    · obtain rfl : n = stateButton state := by simpa [Control.addGroup, Control.new] using hn
      exact hgives.glyphicon _ rfl

/-- Options leave the toggles that are shown as they are. -/
theorem Host.options_keep_toggle {host : Host} {options : List String}
    {shown : Option (List Button)} {after : List Button}
    (h : host.apply shown (optionsRefresh options) = some after) {b : Button} (hb : b ∈ after)
    (hid : b.id = toggleId) : ∃ before, shown = some before ∧ b ∈ before := by
  rcases host.refresh _ _ rfl after h b hb with ⟨before, hbefore, hb, -⟩ | ⟨n, hn, hgives⟩
  · exact ⟨before, hbefore, hb⟩
  · have hn : ∃ option ∈ options, optionButton? option = some n := by
      simpa [optionsRefresh, Control.addGroup, Control.new] using hn
    obtain ⟨option, -, hn⟩ := hn
    exact absurd (hgives.id ▸ hid) (optionButton_ne_toggle hn)

def Host.Follows (host : Host) (id : String) (events : List Event) : Prop :=
  ∀ shown, host.showing id events = some shown → ∀ b ∈ shown, b.id = toggleId →
    Bar.Follows events (CommandBar.after id events).state b

/-- One more event: what counts of it is the control that is loaded. -/
theorem Host.Follows.step {host : Host} {id : String} {events : List Event}
    (hbefore : host.Follows id events) (e : Event) : host.Follows id (events ++ [e]) := by
  intro shown h b hb hid
  rw [host.showing_concat] at h
  rw [CommandBar.after_concat]
  cases e with
  | actionsAnnounced actions =>
    rw [Host.update_shown (by rw [announcement_eq]) h] at hb
    refine ⟨fun _ => announced_toggle hb hid, fun hu => absurd ?_ hu⟩
    exact unfollowed_concat.mpr (.inl trivial)
  | stateChanged entry state =>
    have hfollowed : ¬ Unfollowed (events ++ [.stateChanged entry state]) := by
      rw [unfollowed_concat]
      rintro (hn | ⟨-, hn⟩) <;> exact hn
    exact ⟨fun hu => absurd hu hfollowed, fun _ => Host.state_glyph h hb hid⟩
  | optionsChanged entry options =>
    obtain ⟨before, hshown, hb⟩ := Host.options_keep_toggle h hb hid
    exact (hbefore before hshown b hb hid).concat (fun hn => hn) trivial
  | disconnected => exact absurd h (Host.remove_shown rfl)
  | _ => exact (hbefore shown h b hb hid).concat (fun hn => hn) trivial

theorem Host.follows (host : Host) (id : String) (events : List Event) :
    host.Follows id events := by
  induction events using List.reverseRecOn with
  | nil =>
    intro shown h
    cases h
  | append_singleton events e ih => exact ih.step e

/-- A glyph counts with its prefix and without it. -/
def Button.HasGlyph (b : Button) (glyph : String) : Prop :=
  b.glyphicon = some glyph ∨ b.glyphicon = some ("glyphicon-" ++ glyph)

theorem listen_toggle (b : CommandBar) :
    b.listen toggleLabel = some (if b.state = .play then .pause else .play) := rfl

/-- The glyph of every toggle that is shown is that of the command which the toggle stands for,
unless the actions were announced while the player was playing and no state has been told since:
then the toggle shows the play glyph and stands for a pause. -/
theorem toggle_shows_its_command (host : Host) (id : String) (events : List Event)
    (shown : List Button) (h : host.showing id events = some shown) :
    let bar := CommandBar.after id events
    ∀ b ∈ shown, b.id = toggleId →
      (bar.state = .play ∧ Unfollowed events →
        b.HasGlyph "play" ∧ ¬ b.HasGlyph "pause" ∧ bar.listen toggleLabel = some .pause) ∧
      (¬ (bar.state = .play ∧ Unfollowed events) →
        (b.HasGlyph "pause" ↔ bar.listen toggleLabel = some .pause) ∧
          (b.HasGlyph "play" ↔ bar.listen toggleLabel = some .play)) := by
  intro bar b hb hid
  have hfollows : Follows events bar.state b := host.follows id events shown h b hb hid
  rw [listen_toggle]
  by_cases hplay : bar.state = .play
  · by_cases hu : Unfollowed events
    · have hglyph := hfollows.announced hu
      simp [Button.HasGlyph, hglyph, hplay, hu]
    · have hglyph := hfollows.told hu
      simp [Button.HasGlyph, hglyph, hplay, hu, stateGlyph]
  · by_cases hu : Unfollowed events
    · have hglyph := hfollows.announced hu
      simp [Button.HasGlyph, hglyph, hplay]
    · have hglyph := hfollows.told hu
      simp [Button.HasGlyph, hglyph, hplay, stateGlyph]

def Button.merged (buttons : List Button) (b : Button) : Button :=
  match buttons.find? (·.id == b.id) with
  | none => b
  | some n =>
    { b with
      glyphicon := n.glyphicon.or b.glyphicon
      name := n.name.or b.name
      click := n.click.or b.click
      classes := n.classes.or b.classes }

def Host.merging : Host where
  apply shown c :=
    match c.action with
    | .update => some c.groups.flatten
    | .refresh => shown.map fun buttons => buttons.map (Button.merged c.groups.flatten)
    | .remove => none
  update shown c hc := by simp only [hc]
  remove shown c hc := by simp only [hc]
  refresh shown c hc after h b' hb' := by
    simp only [hc] at h
    obtain ⟨before, rfl, rfl⟩ := Option.map_eq_some_iff.mp h
    obtain ⟨b, hb, rfl⟩ := List.mem_map.mp hb'
    cases hfind : c.groups.flatten.find? (·.id == b.id) with
    | none =>
      have hsame : b.merged c.groups.flatten = b := by simp only [Button.merged, hfind]
      rw [hsame]
      refine .inl ⟨before, rfl, hb, fun n hn => ?_⟩
      exact ne_of_beq_false (by simpa using List.find?_eq_none.mp hfind n hn)
    | some n =>
      have hid : n.id = b.id := by simpa using List.find?_some hfind
      refine .inr ⟨n, List.mem_of_find?_eq_some hfind, ?_⟩
      simp only [Button.merged, hfind]
      constructor <;> simp_all

def announcedWhilePlaying : List Event :=
  [.stateChanged (some 1) .play, .actionsAnnounced [⟨.pause, none⟩]]

theorem toggle_of_announced_while_playing :
    ∃ shown, Host.merging.showing defaultId announcedWhilePlaying = some shown ∧
      ∃ b ∈ shown, b.id = toggleId ∧ b.HasGlyph "play" ∧
        (CommandBar.after defaultId announcedWhilePlaying).listen toggleLabel = some .pause := by
  have hshown : Host.merging.showing defaultId announcedWhilePlaying =
      some [.labelled toggleId "play" toggleLabel] := rfl
  have hunfollowed : Unfollowed announcedWhilePlaying :=
    ⟨[.stateChanged (some 1) .play], .actionsAnnounced [⟨.pause, none⟩], [], rfl, trivial,
      by simp⟩
  obtain ⟨hunmatched, -⟩ := toggle_shows_its_command Host.merging defaultId announcedWhilePlaying _
    hshown (.labelled toggleId "play" toggleLabel) (by simp) rfl
  obtain ⟨hglyph, -, hpause⟩ := hunmatched ⟨rfl, hunfollowed⟩
  exact ⟨_, hshown, .labelled toggleId "play" toggleLabel, by simp, rfl, hglyph, hpause⟩

end MediaRemote.Bar
