import MediaRemote.Proofs.Bar.Announcements
import MediaRemote.Proofs.Session.Told

namespace MediaRemote.Bar

open Json (Value)
open Session (Content Event)
open Session.Player (Moment Run)
open Wire (switchName optionNames)

variable {ρ : Type}

def classButton (id : String) (on : Bool) : Button :=
  { Button.bare id with classes := some (if on then "btn-primary" else "!btn-primary") }

theorem optionClass_eq_some {name classes : String} {n : Button} :
    optionClass name classes = some n ↔
      ∃ t, toggle? name = some t ∧ { Button.bare t.button.id with classes := some classes } = n :=
  Option.map_eq_some_iff

/-- A name has a button if it is that of a toggle which is on or off. -/
theorem optionButton?_eq_some {option : String} {n : Button} :
    optionButton? option = some n ↔ ∃ t ∈ [shuffleToggle, repeatToggle], ∃ on,
      option = switchName t.option on ∧ n = classButton t.button.id on := by
  constructor
  · intro h
    unfold optionButton? at h
    split at h
    · rename_i name hname
      obtain ⟨t, htoggle, rfl⟩ := optionClass_eq_some.mp h
      obtain ⟨ht, ho⟩ := toggle?_eq_some.mp htoggle
      have hoption : option = "!" ++ String.ofList name := by
        rw [← String.toList_inj, hname]
        simp [String.toList_append]
      refine ⟨t, ht, false, ?_, rfl⟩
      rw [hoption, ho]
      rfl
    · obtain ⟨t, htoggle, rfl⟩ := optionClass_eq_some.mp h
      obtain ⟨ht, rfl⟩ := toggle?_eq_some.mp htoggle
      exact ⟨t, ht, true, rfl, rfl⟩
  · rintro ⟨t, ht, on, rfl, rfl⟩
    rcases List.mem_pair.mp ht with rfl | rfl <;> cases on <;> decide

def switchIn (members : List (String × Value)) (name : String) : Option Bool :=
  (Dictionary.find? name members).bind Value.bool?

/-- What shows an option: its switch, behind that of an option that is on and has the name which
this one has when it is off. -/
def buttonsFor (members : List (String × Value)) (option id : String) : List Button :=
  (if switchIn members ("!" ++ option) = some true then [classButton id false] else []) ++
    ((switchIn members option).map (classButton id)).toList

def memberButton? (m : String × Value) : Option Button :=
  (m.2.bool?.map (switchName m.1)).bind optionButton?

theorem buttons_of_object (members : List (String × Value)) :
    (optionNames (.object members)).filterMap optionButton? = members.filterMap memberButton? :=
  List.filterMap_filterMap

theorem append_bang_inj {key option : String} (h : "!" ++ key = "!" ++ option) :
    key = option := by
  have hlist := congrArg String.toList h
  rw [String.toList_append, String.toList_append] at hlist
  exact String.toList_inj.mp (List.append_cancel_left hlist)

theorem append_bang_ne {key option : String} (h : option.toList.head? ≠ some '!') :
    "!" ++ key ≠ option := by
  rintro rfl
  exact h (by simp [String.toList_append])

/-- A member comes to a button if it is the switch of a toggle, or if it is on and has the name of a
toggle that is off. -/
theorem memberButton?_eq_some {key : String} {v : Value} {n : Button} :
    memberButton? (key, v) = some n ↔ ∃ t ∈ [shuffleToggle, repeatToggle],
      (key = t.option ∧ ∃ on, v.bool? = some on ∧ n = classButton t.button.id on) ∨
        (key = "!" ++ t.option ∧ v.bool? = some true ∧ n = classButton t.button.id false) := by
  simp only [memberButton?, Option.bind_eq_some_iff, Option.map_eq_some_iff]
  constructor
  · rintro ⟨_, ⟨on, hv, rfl⟩, hbutton⟩
    obtain ⟨t, ht, shown, hname, hn⟩ := optionButton?_eq_some.mp hbutton
    refine ⟨t, ht, ?_⟩
    cases on with
    | true =>
      cases shown with
      | true => exact .inl ⟨hname, true, hv, hn⟩
      | false => exact .inr ⟨hname, hv, hn⟩
    | false =>
      cases shown with
      | true =>
        have hplain : t.option.toList.head? ≠ some '!' := by
          rcases List.mem_pair.mp ht with rfl | rfl <;> decide
        exact absurd hname (append_bang_ne hplain)
      | false => exact .inl ⟨append_bang_inj hname, false, hv, hn⟩
  · rintro ⟨t, ht, ⟨rfl, on, hv, rfl⟩ | ⟨rfl, hv, rfl⟩⟩
    · exact ⟨_, ⟨on, hv, rfl⟩, optionButton?_eq_some.mpr ⟨t, ht, on, rfl, rfl⟩⟩
    · exact ⟨_, ⟨true, hv, rfl⟩, optionButton?_eq_some.mpr ⟨t, ht, false, rfl, rfl⟩⟩

theorem memberButton?_switch {t : Toggle} (ht : t ∈ [shuffleToggle, repeatToggle]) (v : Value) :
    memberButton? (t.option, v) = v.bool?.map (classButton t.button.id) := by
  rcases List.mem_pair.mp ht with rfl | rfl
  all_goals
    cases v with
    | bool on => cases on <;> decide
    | _ => rfl

theorem memberButton?_bang {t : Toggle} (ht : t ∈ [shuffleToggle, repeatToggle]) (v : Value) :
    memberButton? ("!" ++ t.option, v) =
      if v.bool? = some true then some (classButton t.button.id false) else none := by
  rcases List.mem_pair.mp ht with rfl | rfl
  all_goals
    cases v with
    | bool on => cases on <;> decide
    | _ => rfl

theorem eq_of_button_id {t t' : Toggle} (ht : t ∈ [shuffleToggle, repeatToggle])
    (ht' : t' ∈ [shuffleToggle, repeatToggle]) (h : t'.button.id = t.button.id) : t' = t := by
  rcases List.mem_pair.mp ht with rfl | rfl <;> rcases List.mem_pair.mp ht' with rfl | rfl
  · rfl
  · exact absurd h (by decide)
  · exact absurd h (by decide)
  · rfl

/-- The buttons of one toggle among those of an object. -/
theorem filter_memberButtons {members : List (String × Value)}
    (h : Dictionary.Increasing members) {t : Toggle} (ht : t ∈ [shuffleToggle, repeatToggle]) :
    (members.filterMap memberButton?).filter (·.id == t.button.id) =
      buttonsFor members t.option t.button.id := by
  have hother : ∀ key v, key ≠ "!" ++ t.option → key ≠ t.option →
      (memberButton? (key, v)).filter (·.id == t.button.id) = none := by
    intro key v hbang hplain
    rw [Option.filter_eq_none_iff]
    intro n hn hid
    obtain ⟨t', ht', hkey⟩ := memberButton?_eq_some.mp hn
    have hid : n.id = t.button.id := by simpa using hid
    rcases hkey with ⟨rfl, on, -, rfl⟩ | ⟨rfl, -, rfl⟩
    · exact hplain (congrArg Toggle.option (eq_of_button_id ht ht' hid))
    · exact hbang (congrArg ("!" ++ ·.option) (eq_of_button_id ht ht' hid))
  have hlt : "!" ++ t.option < t.option := by
    rcases List.mem_pair.mp ht with rfl | rfl <;> decide
  rw [List.filter_filterMap, Dictionary.filterMap_of_two hlt hother h, buttonsFor]
  congr 1
  · cases hfind : Dictionary.find? ("!" ++ t.option) members with
    | none => simp [switchIn, hfind]
    | some v =>
      simp only [switchIn, hfind, Option.bind_some, memberButton?_bang ht]
      split <;> simp [classButton, Button.bare]
  · cases hfind : Dictionary.find? t.option members with
    | none => simp [switchIn, hfind]
    | some v =>
      simp only [switchIn, hfind, Option.bind_some, memberButton?_switch ht]
      cases v.bool? <;> simp [classButton, Button.bare]

/-- Every button of an object is that of a toggle. -/
theorem id_of_memberButton {members : List (String × Value)} {n : Button}
    (h : n ∈ members.filterMap memberButton?) : n.id = "shuffle" ∨ n.id = "repeat" := by
  obtain ⟨⟨key, v⟩, -, hn⟩ := List.mem_filterMap.mp h
  obtain ⟨t, ht, hkey⟩ := memberButton?_eq_some.mp hn
  have hid : n.id = t.button.id := by
    rcases hkey with ⟨-, on, -, rfl⟩ | ⟨-, -, rfl⟩ <;> rfl
  rw [hid]
  rcases List.mem_pair.mp ht with rfl | rfl
  · exact .inl rfl
  · exact .inr rfl

theorem handle_options (b : CommandBar) (id : Option Int) (members : List (String × Value)) :
    (b.handle (.optionsChanged id (optionNames (.object members)))).2 =
      some ⟨true, .refresh, [members.filterMap memberButton?], []⟩ := by
  rw [← buttons_of_object]
  rfl

/-- An object of options, whatever it holds, is told once, and the bar refreshes what it shows with
one group of buttons: one for each of the two toggles whose option is a switch of the object, on or
off as the switch is, and no others. Only an option that is on and is named like a toggle that is
off shows that toggle as off too, once more if it has a switch of its own. -/
theorem options_reach_the_bar (run : Run ρ) (hl : run.observer = .live) (m : Moment ρ)
    (hm : m ∈ run.history) (content : Content) (hc : m.content? = some content)
    (members : List (String × Value)) (ho : content.options? = some (.object members))
    (b : CommandBar) :
    ∃ names, m.events.filterMap Event.options? = [names] ∧
      ∀ id, ∃ buttons,
        (b.handle (.optionsChanged id names)).2 = some ⟨true, .refresh, [buttons], []⟩ ∧
          buttons.filter (·.id == "shuffle") = buttonsFor members "random" "shuffle" ∧
          buttons.filter (·.id == "repeat") = buttonsFor members "loop" "repeat" ∧
          ∀ n ∈ buttons, n.id = "shuffle" ∨ n.id = "repeat" := by
  have hlive : m.before.observer = .live :=
    (Session.Player.before_of_history run m hm).2.trans hl
  have hincreasing : Dictionary.Increasing members := by
    cases Moment.options_sorted hc ho with
    | object _ increasing _ => exact increasing
  refine ⟨optionNames (.object members), Moment.told_of_options hc hlive ho, fun id => ?_⟩
  refine ⟨members.filterMap memberButton?, handle_options b id members, ?_, ?_, ?_⟩
  · exact filter_memberButtons hincreasing (t := shuffleToggle) (by simp)
  · exact filter_memberButtons hincreasing (t := repeatToggle) (by simp)
  · exact fun n hn => id_of_memberButton hn

/-- An option is on whose name starts with an exclamation mark; the rest of it names a toggle. -/
def bangOption : Run Unit :=
  ⟨5, 1000, false, .live,
    [(0, .opened),
     (1, .receive <| "\x7b\"id\":0," ++
      "\"result\":\x7b\"actions\":[\x7b\"method\":\"options\"\x7d]\x7d\x7d"),
     (2, .receive <| "\x7b\"method\":\"options\",\"params\":" ++
      "\x7b\"loop\":true,\"!random\":true,\"id\":7\x7d\x7d")]⟩

theorem shuffle_shown_off_without_a_switch :
    ∃ m ∈ bangOption.history, ∃ members,
      m.content?.bind Content.options? = some (.object members) ∧
      switchIn members "random" = none ∧
      ∃ names, m.events.filterMap Event.options? = [names] ∧ ∃ buttons,
        ((CommandBar.new defaultId).1.handle (.optionsChanged none names)).2 =
          some ⟨true, .refresh, [buttons], []⟩ ∧
        buttons.filter (·.id == "shuffle") = [classButton "shuffle" false] ∧
        buttons.filter (·.id == "repeat") = [classButton "repeat" true] := by
  have htold : (bangOption.history[2]?.bind fun m => (m.content?.bind Content.options?).map
      fun options => ["random", "!random", "loop", "!loop"].map fun key =>
        (options.member? key).bind Value.bool?) = some [none, some true, some true, none] := by
    decide +kernel
  obtain ⟨m, hm, htold⟩ := Option.bind_eq_some_iff.mp htold
  have hmem : m ∈ bangOption.history := List.mem_of_getElem? hm
  obtain ⟨options, hoptions, htold⟩ := Option.map_eq_some_iff.mp htold
  obtain ⟨content, hc, ho⟩ := Option.bind_eq_some_iff.mp hoptions
  cases options with
  | object members =>
    have hswitches : ["random", "!random", "loop", "!loop"].map (switchIn members) =
      [none, some true, some true, none] := htold
    simp only [List.map_cons, List.map_nil, List.cons.injEq, and_true] at hswitches
    obtain ⟨hrandom, hbang, hloop, hbangLoop⟩ := hswitches
    have hshuffle : buttonsFor members "random" "shuffle" = [classButton "shuffle" false] := by
      simp [buttonsFor, hrandom, hbang]
    have hrepeat : buttonsFor members "loop" "repeat" = [classButton "repeat" true] := by
      simp [buttonsFor, hloop, hbangLoop]
    obtain ⟨names, hnames, hbuttons⟩ := options_reach_the_bar bangOption rfl m hmem content hc
      members ho (CommandBar.new defaultId).1
    obtain ⟨buttons, hloaded, hs, hr, -⟩ := hbuttons none
    exact ⟨m, hmem, members, hoptions, hrandom, names, hnames, buttons, hloaded,
      hs.trans hshuffle, hr.trans hrepeat⟩
  | _ => cases htold

end MediaRemote.Bar
