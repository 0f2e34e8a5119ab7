import Mathlib.Data.List.Basic
import MediaRemote.Bar.CommandBar

namespace MediaRemote.Bar

open Wire (Action ActionDescriptor)

def listed (scripts more : List String) : List String :=
  more.foldl (fun names s => if names.contains s then names else names ++ [s]) scripts

theorem mem_listed {scripts more : List String} {s : String} :
    s ∈ listed scripts more ↔ s ∈ scripts ∨ s ∈ more := by
  induction more generalizing scripts with
  | nil => simp [listed]
  | cons t more ih =>
    rw [listed, List.foldl_cons, ← listed, ih]
    split
    · rename_i ht
      have ht : t ∈ scripts := by simpa using ht
      constructor
      · rintro (hs | hs)
        · exact .inl hs
        · exact .inr (by simp [hs])
      · rintro (hs | hs)
        · exact .inl hs
        · rcases List.mem_cons.mp hs with rfl | hs
          · exact .inl ht
          · exact .inr hs
    · simp [or_assoc]

theorem nodup_listed {scripts : List String} (h : scripts.Nodup) (more : List String) :
    (listed scripts more).Nodup := by
  induction more generalizing scripts with
  | nil => exact h
  | cons t more ih =>
    rw [listed, List.foldl_cons, ← listed]
    apply ih
    split
    · exact h
    · rename_i ht
      have ht : t ∉ scripts := by simpa using ht
      rw [List.nodup_append]
      refine ⟨h, by simp, fun a ha b hb => ?_⟩
      rw [List.mem_singleton.mp hb]
      rintro rfl
      exact ht ha

theorem foldl_addScript (switches : List Toggle) (c : Control) :
    switches.foldl (fun c t => c.addScript t.script) c =
      { c with scripts := listed c.scripts (switches.map (·.script)) } := by
  induction switches generalizing c with
  | nil => rfl
  | cons t switches ih =>
    rw [List.foldl_cons, ih, Control.addScript]
    split <;> simp_all [listed]

def switches (actions : List ActionDescriptor) : List Toggle := actions.flatMap toggles

theorem announcement_eq (actions : List ActionDescriptor) :
    announcement actions =
      { enabled := true
        action := .update
        groups := [actions.flatMap transportButtons, (switches actions).map (·.button),
          actions.flatMap volumeButtons]
        scripts := listed [] ((switches actions).map (·.script)) } := by
  rw [announcement, foldl_addScript]
  rfl

theorem toggle?_eq_some {option : String} {t : Toggle} :
    toggle? option = some t ↔ t ∈ [shuffleToggle, repeatToggle] ∧ option = t.option := by
  constructor
  · intro h
    have hoption : t.option = option := by simpa using List.find?_some h
    exact ⟨List.mem_of_find?_eq_some h, hoption.symm⟩
  · rintro ⟨ht, rfl⟩
    rcases List.mem_pair.mp ht with rfl | rfl
    · rfl
    · rfl

/-- What a button of an announcement is made for. -/
inductive MadeFor (actions : List ActionDescriptor) : Button → Prop
  | next (a) (mem : a ∈ actions) (method : a.method = .next) :
    MadeFor actions (.labelled "next" "fast-forward" "next")
  | stop (a) (mem : a ∈ actions) (method : a.method = .stop) :
    MadeFor actions (.labelled "stop" "stop" "stop")
  | toggle (a) (mem : a ∈ actions) (method : a.method = .pause) :
    MadeFor actions (.labelled "playpause" "play" "toggle play pause")
  | option (t) (mem : t ∈ switches actions) : MadeFor actions t.button
  | volumeDown (a) (mem : a ∈ actions) (method : a.method = .volume) :
    MadeFor actions (.labelled "volume-down" "volume-down" "volume down")
  | volumeUp (a) (mem : a ∈ actions) (method : a.method = .volume) :
    MadeFor actions (.labelled "volume-up" "volume-up" "volume up")

theorem madeFor_of_mem {actions : List ActionDescriptor} {b : Button}
    (h : b ∈ (announcement actions).groups.flatten) : MadeFor actions b := by
  simp only [announcement_eq, List.flatten_cons, List.flatten_nil, List.append_nil,
    List.mem_append, List.mem_flatMap, List.mem_map] at h
  rcases h with ⟨a, ha, hb⟩ | ⟨t, ht, rfl⟩ | ⟨a, ha, hb⟩
  · unfold transportButtons at hb
    split at hb
    · rename_i hm
      rw [List.mem_singleton.mp hb]
      exact .next a ha hm
    · rename_i hm
      rw [List.mem_singleton.mp hb]
      exact .stop a ha hm
    · rename_i hm
      rw [List.mem_singleton.mp hb]
      exact .toggle a ha hm
    · cases hb
  · exact .option t ht
  · unfold volumeButtons at hb
    split at hb
    · rename_i hm
      rcases List.mem_cons.mp hb with rfl | hb
      · exact .volumeDown a ha hm
      · rw [List.mem_singleton.mp hb]
        exact .volumeUp a ha hm
    · cases hb

theorem mem_switches {actions : List ActionDescriptor} {t : Toggle} :
    t ∈ switches actions ↔
      ∃ a ∈ actions, a.method = .options ∧ ∃ name ∈ a.paramNames, toggle? name = some t := by
  simp only [switches, List.mem_flatMap]
  constructor
  · rintro ⟨a, ha, ht⟩
    unfold toggles at ht
    split at ht
    · rename_i hm
      exact ⟨a, ha, hm, List.mem_filterMap.mp ht⟩
    · cases ht
  · rintro ⟨a, ha, hm, ht⟩
    refine ⟨a, ha, ?_⟩
    simp only [toggles, hm]
    exact List.mem_filterMap.mpr ht

theorem mem_toggles_of_switch {actions : List ActionDescriptor} {t : Toggle}
    (h : t ∈ switches actions) : t ∈ [shuffleToggle, repeatToggle] := by
  obtain ⟨_, -, -, _, -, ht⟩ := mem_switches.mp h
  exact (toggle?_eq_some.mp ht).1

theorem id_ne_toggle {t : Toggle} (h : t ∈ [shuffleToggle, repeatToggle]) :
    t.button.id ≠ "playpause" := by
  rcases List.mem_pair.mp h with rfl | rfl <;> decide

end MediaRemote.Bar
