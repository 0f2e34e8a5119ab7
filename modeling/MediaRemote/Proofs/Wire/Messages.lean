import MediaRemote.Proofs.Json.Records
import MediaRemote.Wire.Request

namespace MediaRemote.Wire.Message

open Json (Value Decoder IsObjectDocument)

theorem fields_open : Decoder.Open fields := by
  intro f hf
  simp only [fields, List.mem_cons, List.not_mem_nil, or_false] at hf
  rcases hf with rfl | rfl | rfl | rfl | rfl
  · exact ⟨Decoder.optional_agrees (Decoder.option_agrees Decoder.value_agrees) _, rfl⟩
  · exact ⟨Decoder.optional_agrees (Decoder.option_agrees Decoder.string_agrees) _, rfl⟩
  all_goals exact ⟨Decoder.optional_agrees (Decoder.option_agrees Decoder.value_agrees) _, rfl⟩

/-- Null is never kept: it counts as absent. -/
def NoNull (m : Message) : Prop :=
  m.id ≠ some .null ∧ m.result ≠ some .null ∧ m.error ≠ some .null ∧ m.params ≠ some .null

theorem view_value (v : Value) : (Decoder.option .value).view v = some v.present := by
  simp only [Decoder.option, Decoder.value, Value.present]
  split <;> rfl

theorem present_ne_null (v : Value) : v.present ≠ some .null := by
  cases v <;> simp [Value.present, Value.isNull]

theorem fields_keep_noNull : ∀ f ∈ fields, f.Keeps NoNull := by
  intro f hf v m m' hm h
  simp only [fields, List.mem_cons, List.not_mem_nil, or_false] at hf
  obtain ⟨hid, hresult, herror, hparams⟩ := hm
  have hv {o : Option Value} (ho : (Decoder.option .value).view v = some o) : o ≠ some .null := by
    rw [view_value, Option.some.injEq] at ho
    exact ho ▸ present_ne_null v
  rcases hf with rfl | rfl | rfl | rfl | rfl
  all_goals obtain ⟨o, ho, rfl⟩ := Option.map_eq_some_iff.mp h
  · exact ⟨hv ho, hresult, herror, hparams⟩
  · exact ⟨hid, hresult, herror, hparams⟩
  · exact ⟨hid, hv ho, herror, hparams⟩
  · exact ⟨hid, hresult, hv ho, hparams⟩
  · exact ⟨hid, hresult, herror, hv ho⟩

theorem noNull_of_parse {text : String} {m : Message} (h : decoder.parse text = .ok m) :
    m.NoNull :=
  Decoder.record_parse_keeps fields_open fields_keep_noNull (by simp [NoNull, blank]) h

def ofItems (items : List Value) : Message where
  id := items[0]?.bind Value.present
  method := items[1]?.bind Value.string?
  result := items[2]?.bind Value.present
  error := items[3]?.bind Value.present
  params := items[4]?.bind Value.present

/-- No more than there are fields, and the method is a string or null. -/
def positional (items : List Value) : Bool :=
  items.length ≤ fields.length && items[1]?.all fun v => v.isNull || v.string?.isSome

theorem view_method (v : Value) : (Decoder.option .string).view v =
    if v.isNull || v.string?.isSome then some v.string? else none := by
  cases v <;> rfl

theorem view_array (items : List Value) :
    decoder.view (.array items) = if positional items then some (ofItems items) else none := by
  have hview : decoder.view (.array items) = Decoder.viewElements items fields blank := rfl
  rw [hview]
  -- one case for each number of elements up to the number of fields, and one beyond
  rcases items with _ | ⟨a, _ | ⟨b, _ | ⟨c, _ | ⟨d, _ | ⟨e, _ | ⟨f, items⟩⟩⟩⟩⟩⟩
  case cons.cons.cons.cons.cons.cons =>
    simp [fields, Decoder.viewElements, Decoder.Field.optional, positional]
  all_goals
    simp only [fields, Decoder.viewElements, Decoder.Field.optional, view_value, view_method]
    first
      | rfl
      | cases hb : b.isNull || b.string?.isSome <;> simp [positional, ofItems, fields, blank, hb]

theorem parse_no_object {text : String} (h : ¬ IsObjectDocument text.toList) {m : Message} :
    decoder.parse text = .ok m ↔
      ∃ items, Json.parse text = .ok (.array items) ∧ positional items = true ∧
        m = ofItems items := by
  refine (Decoder.record_parse fields_open h).trans ?_
  have hview : (Decoder.record blank fields).view = decoder.view := rfl
  constructor
  · rintro ⟨items, hp, hv⟩
    rw [hview, view_array] at hv
    split at hv
    · cases hv
      exact ⟨items, hp, ‹_›, rfl⟩
    · cases hv
  · rintro ⟨items, hp, hpos, rfl⟩
    exact ⟨items, hp, by rw [hview, view_array, if_pos hpos]⟩

end MediaRemote.Wire.Message
