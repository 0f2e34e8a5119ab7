import MediaRemote.Proofs.Wire.Messages
import MediaRemote.Wire.Change

namespace MediaRemote

open Json (Value Decoder)

namespace Json.Value

variable {v : Value}

theorem signed?_eq_some {n : Int} : v.signed? = some n ↔ v = .integer n ∧ IsSigned64 n := by
  cases v with
  | integer m =>
    simp only [signed?, Option.ite_none_right_eq_some, Option.some.injEq, integer.injEq]
    constructor
    · rintro ⟨hm, rfl⟩
      exact ⟨rfl, hm⟩
    · rintro ⟨rfl, hm⟩
      exact ⟨hm, rfl⟩
  | _ => simp [signed?]

theorem string?_eq_some {s : String} : v.string? = some s ↔ v = .string s := by
  cases v <;> simp [string?]

theorem double?_eq_some {x : Binary64} :
    v.double? = some x ↔ v = .double x ∨ ∃ n, v = .integer n ∧ x = .ofInt n := by
  cases v <;> simp [double?, eq_comm]

theorem present_eq_some {w : Value} : v.present = some w ↔ v = w ∧ v ≠ .null := by
  cases v <;> simp [present, isNull]

end Json.Value

namespace Json.Decoder

variable {α ρ : Type}

theorem lenient_view {d : Decoder α} (hnull : d.view .null = none) (v : Value) :
    (lenient (option d)).view v = some (d.view v) := by
  cases v with
  | null => exact congrArg some hnull.symm
  | _ =>
    simp only [lenient, option, Value.isNull]
    cases d.view _ <;> rfl

/-- A field that takes any value leaves the record as it is where its key is missing. -/
theorem viewMembers_optional {members : List (String × Value)} {name : String}
    {d : Decoder (Option α)} {set : ρ → Option α → ρ} {f : Value → Option α}
    (hd : ∀ v, d.view v = some (f v)) {fields : List (Field ρ)} {x : ρ} (hx : set x none = x) :
    viewMembers members (.optional name d set :: fields) x =
      viewMembers members fields (set x ((Dictionary.find? name members).bind f)) := by
  cases hfind : Dictionary.find? name members with
  | none => simp [viewMembers, Field.optional, hfind, hx]
  | some v => simp [viewMembers, Field.optional, hfind, hd]

end Json.Decoder

namespace Wire.Change

open Json.Decoder

def ofValues (value : String → Option Value) : Change where
  id := (value "id").bind Value.signed?
  state := (value "state").bind fun v => v.string?.map PlaybackState.ofText
  duration := (value "duration").bind Value.double?
  media := (value "media").bind Value.present
  info := (value "info").bind Value.present
  options := (value "options").bind Value.present
  next := (value "next").bind Value.signed?
  volume := (value "volume").bind Value.present
  level := (value "level").bind Value.signed?
  message := (value "message").bind Value.present

theorem view_object (members : List (String × Value)) :
    decoder.view (.object members) = some (ofValues (Dictionary.find? · members)) := by
  have hsigned := lenient_view (d := .signed) rfl
  have hstate := lenient_view (d := PlaybackState.decoder) rfl
  have hdouble := lenient_view (d := .double) rfl
  have hvalue := Message.view_value
  change viewMembers members fields blank = _
  unfold fields
  rw [viewMembers_optional hsigned rfl, viewMembers_optional hstate rfl,
    viewMembers_optional hdouble rfl, viewMembers_optional hvalue rfl,
    viewMembers_optional hvalue rfl, viewMembers_optional hvalue rfl,
    viewMembers_optional hsigned rfl, viewMembers_optional hvalue rfl,
    viewMembers_optional hsigned rfl, viewMembers_optional hvalue rfl]
  rfl

/-- Members under other keys than those of the fields do not matter. -/
theorem view_object_congr {members others : List (String × Value)}
    (h : ∀ f ∈ fields, Dictionary.find? f.name others = Dictionary.find? f.name members) :
    decoder.view (.object others) = decoder.view (.object members) := by
  simp only [fields, List.forall_mem_cons, Field.optional] at h
  obtain ⟨hid, hstate, hduration, hmedia, hinfo, hoptions, hnext, hvolume, hlevel, hmessage, -⟩ :=
    h
  simp only [view_object, ofValues, hid, hstate, hduration, hmedia, hinfo, hoptions, hnext,
    hvolume, hlevel, hmessage]

/-- Each field is the value under its own key, and absent only if there is none that suits. -/
structure ReadFrom (members : List (String × Value)) (c : Change) : Prop where
  id (n : Int) : c.id = some n ↔
    Dictionary.find? "id" members = some (.integer n) ∧ IsSigned64 n
  state (s : PlaybackState) : c.state = some s ↔
    ∃ text, Dictionary.find? "state" members = some (.string text) ∧ PlaybackState.ofText text = s
  duration (x : Binary64) : c.duration = some x ↔
    Dictionary.find? "duration" members = some (.double x) ∨
      ∃ n, Dictionary.find? "duration" members = some (.integer n) ∧ x = .ofInt n
  media (v : Value) : c.media = some v ↔ Dictionary.find? "media" members = some v ∧ v ≠ .null
  info (v : Value) : c.info = some v ↔ Dictionary.find? "info" members = some v ∧ v ≠ .null
  options (v : Value) : c.options = some v ↔
    Dictionary.find? "options" members = some v ∧ v ≠ .null
  next (n : Int) : c.next = some n ↔
    Dictionary.find? "next" members = some (.integer n) ∧ IsSigned64 n
  volume (v : Value) : c.volume = some v ↔ Dictionary.find? "volume" members = some v ∧ v ≠ .null
  level (n : Int) : c.level = some n ↔
    Dictionary.find? "level" members = some (.integer n) ∧ IsSigned64 n
  message (v : Value) : c.message = some v ↔
    Dictionary.find? "message" members = some v ∧ v ≠ .null

section Suits

variable (o : Option Value)

theorem bind_signed? {n : Int} : o.bind Value.signed? = some n ↔
    o = some (.integer n) ∧ IsSigned64 n := by
  simp only [Option.bind_eq_some_iff, Value.signed?_eq_some]
  constructor
  · rintro ⟨v, hv, rfl, hn⟩
    exact ⟨hv, hn⟩
  · rintro ⟨hv, hn⟩
    exact ⟨_, hv, rfl, hn⟩

theorem bind_present {v : Value} : o.bind Value.present = some v ↔ o = some v ∧ v ≠ .null := by
  simp only [Option.bind_eq_some_iff, Value.present_eq_some]
  constructor
  · rintro ⟨w, hw, rfl, hv⟩
    exact ⟨hw, hv⟩
  · rintro ⟨hv, hn⟩
    exact ⟨_, hv, rfl, hn⟩

theorem bind_double? {x : Binary64} : o.bind Value.double? = some x ↔
    o = some (.double x) ∨ ∃ n, o = some (.integer n) ∧ x = .ofInt n := by
  simp only [Option.bind_eq_some_iff, Value.double?_eq_some]
  constructor
  · rintro ⟨v, hv, rfl | ⟨n, rfl, hx⟩⟩
    · exact .inl hv
    · exact .inr ⟨n, hv, hx⟩
  · rintro (hv | ⟨n, hv, hx⟩)
    · exact ⟨_, hv, .inl rfl⟩
    · exact ⟨_, hv, .inr ⟨n, rfl, hx⟩⟩

theorem bind_state? {s : PlaybackState} :
    (o.bind fun v => v.string?.map PlaybackState.ofText) = some s ↔
      ∃ text, o = some (.string text) ∧ PlaybackState.ofText text = s := by
  simp only [Option.bind_eq_some_iff, Option.map_eq_some_iff, Value.string?_eq_some]
  constructor
  · rintro ⟨v, hv, text, rfl, hs⟩
    exact ⟨text, hv, hs⟩
  · rintro ⟨text, hv, hs⟩
    exact ⟨_, hv, text, rfl, hs⟩

end Suits

theorem ofValues_readFrom (members : List (String × Value)) :
    (ofValues (Dictionary.find? · members)).ReadFrom members where
  id _ := bind_signed? _
  state _ := bind_state? _
  duration _ := bind_double? _
  media _ := bind_present _
  info _ := bind_present _
  options _ := bind_present _
  next _ := bind_signed? _
  volume _ := bind_present _
  level _ := bind_signed? _
  message _ := bind_present _

def Mistyped (key : String) (v : Value) : Prop :=
  if key = "id" ∨ key = "next" ∨ key = "level" then ∀ n, v = .integer n → ¬ IsSigned64 n
  else if key = "state" then ∀ s, v ≠ .string s
  else if key = "duration" then (∀ n, v ≠ .integer n) ∧ ∀ x, v ≠ .double x
  else False

def without (keys : List String) (members : List (String × Value)) : List (String × Value) :=
  members.filter fun m => m.1 ∉ keys

theorem find?_without (key : String) (keys : List String) (members : List (String × Value)) :
    Dictionary.find? key (without keys members) =
      if key ∈ keys then none else Dictionary.find? key members := by
  unfold Dictionary.find? without
  rw [List.find?_filter]
  split
  · rename_i hk
    rw [List.find?_eq_none.mpr, Option.map_none]
    intro m _ hm
    simp only [beq_iff_eq, decide_eq_true_eq] at hm
    exact hm.1 (hm.2 ▸ hk)
  · rename_i hk
    congr 2
    funext m
    by_cases hm : m.1 = key <;> simp [hm, hk]

/-- What is made of the values that suit is the same without those that do not. -/
theorem bind_without {α : Type} {key : String} {keys : List String}
    {members : List (String × Value)} (h : ∀ m ∈ members, m.1 ∈ keys → Mistyped m.1 m.2)
    {f : Value → Option α} (hf : ∀ v, Mistyped key v → f v = none) :
    (Dictionary.find? key (without keys members)).bind f =
      (Dictionary.find? key members).bind f := by
  rw [find?_without]
  split
  · rename_i hk
    cases hfind : Dictionary.find? key members with
    | none => rfl
    | some v => exact (hf v (h _ (Dictionary.mem_of_find? hfind) hk)).symm
  · rfl

theorem view_without {keys : List String} {members : List (String × Value)}
    (h : ∀ m ∈ members, m.1 ∈ keys → Mistyped m.1 m.2) :
    decoder.view (.object (without keys members)) = decoder.view (.object members) := by
  have hsigned {key : String} (hkey : key = "id" ∨ key = "next" ∨ key = "level") :
      ∀ v, Mistyped key v → v.signed? = none := by
    intro v hv
    rw [Mistyped, if_pos hkey] at hv
    refine Option.eq_none_iff_forall_ne_some.mpr fun n hn => ?_
    obtain ⟨hn, hrange⟩ := Value.signed?_eq_some.mp hn
    exact hv n hn hrange
  have hstate : ∀ v, Mistyped "state" v → v.string?.map PlaybackState.ofText = none := by
    intro v hv
    simp only [Mistyped, String.reduceEq, or_self, if_true, if_false] at hv
    cases v <;> first | rfl | exact absurd rfl (hv _)
  have hduration : ∀ v, Mistyped "duration" v → v.double? = none := by
    intro v hv
    simp only [Mistyped, String.reduceEq, or_self, if_true, if_false] at hv
    cases v <;> first | rfl | exact absurd rfl (hv.1 _) | exact absurd rfl (hv.2 _)
  have hvalue {key : String} (hkey : ¬ ∃ v, Mistyped key v) :
      ∀ v, Mistyped key v → v.present = none := fun v hv => absurd ⟨v, hv⟩ hkey
  rw [view_object, view_object]
  simp only [ofValues]
  rw [bind_without h (hsigned (.inl rfl)), bind_without h hstate, bind_without h hduration,
    bind_without h (hvalue (by simp [Mistyped])), bind_without h (hvalue (by simp [Mistyped])),
    bind_without h (hvalue (by simp [Mistyped])), bind_without h (hsigned (by simp)),
    bind_without h (hvalue (by simp [Mistyped])), bind_without h (hsigned (by simp)),
    bind_without h (hvalue (by simp [Mistyped]))]

end Wire.Change
end MediaRemote
