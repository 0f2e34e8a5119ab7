import MediaRemote.Bar.Control
import MediaRemote.Proofs.Json.Restored
import MediaRemote.Wire.Capabilities
import MediaRemote.Wire.Request

namespace MediaRemote

open Json (Value Decoder)
open Json.Decoder (Column Restores orNull)
open Json.Decoder.Column (always unlessNone)

/-- What is read is written as a text that is read for the same, and so is written the same. -/
def RoundTrips {α : Type} (d : Decoder α) (write : α → Value) : Prop :=
  ∀ text a, d.parse text = .ok a → (write a).IsCarried →
    d.parse (write a).text = .ok a ∧
      ∀ b, d.parse (write a).text = .ok b → (write b).text = (write a).text

theorem roundTrips_of_restores {α : Type} {d : Decoder α} {write : α → Value}
    (h : Restores Json.maxDepth d write) : RoundTrips d write := by
  intro text a ha hx
  have hback := h.parse ha hx
  refine ⟨hback, fun b hb => ?_⟩
  obtain rfl : a = b := by simpa [hback] using hb
  rfl

/-- A type that travels by name. Every name is kept, and only a name that no value of its own has is
taken for another one. -/
structure TravelsByName {α : Type} (d : Decoder α) (write : α → Value) (other : String → α) :
    Prop where
  kept : ∀ text s, Json.parse text = .ok (.string s) →
    ∃ a, d.parse text = .ok a ∧ write a = .string s
  other_iff : ∀ text s, Json.parse text = .ok (.string s) → ∀ t, d.parse text = .ok (other t) ↔
    t = s ∧ ∀ a, (∀ u, a ≠ other u) → write a ≠ .string s

theorem travelsByName_of_inverse {α : Type} {f : String → α} {g : α → String}
    {other : String → α} (hg : ∀ s, g (f s) = s) (ho : ∀ t, g (other t) = t)
    (hf : ∀ a, (∀ u, a ≠ other u) → f (g a) = a) :
    TravelsByName (.ofString f) (fun a => .string (g a)) other := by
  have hparse {text s} (h : Json.parse text = .ok (.string s)) :
      (Decoder.ofString f).parse text = .ok (f s) := by
    obtain ⟨r, hread, hr⟩ := Decoder.document_eq_ok.mp h
    exact Decoder.document_eq_ok.mpr
      ⟨r, (Decoder.ofString_agrees f _ _ _ _).mpr ⟨.string s, hread, rfl⟩, hr⟩
  constructor
  · intro text s h
    exact ⟨f s, hparse h, congrArg Value.string (hg s)⟩
  · intro text s h t
    rw [hparse h, Except.ok.injEq]
    constructor
    · intro hs
      have hts : t = s := by rw [← ho t, ← hs, hg]
      refine ⟨hts, fun a ha hw => ha t ?_⟩
      rw [← hf a ha, Value.string.inj hw, hs]
    · rintro ⟨rfl, hknown⟩
      by_contra hne
      refine hknown (f t) (fun u hu => hne ?_) (congrArg Value.string (hg t))
      have hut : u = t := by rw [← ho u, ← hu, hg]
      rw [hu, hut]

namespace Wire

def Message.columns : List (Column Message) :=
  [unlessNone "id" (.option .value) (fun v => v) (·.id) fun m v => { m with id := v },
   unlessNone "method" (.option .string) .string (·.method) fun m v => { m with method := v },
   unlessNone "result" (.option .value) (fun v => v) (·.result) fun m v => { m with result := v },
   unlessNone "error" (.option .value) (fun v => v) (·.error) fun m v => { m with error := v },
   unlessNone "params" (.option .value) (fun v => v) (·.params) fun m v => { m with params := v }]

theorem Message.columns_lawful : Column.Lawful columns := by
  constructor
  · simp [columns, unlessNone]
  · simp [columns, unlessNone, Column.Apart]
  · rintro ⟨⟩ ⟨⟩ h
    simpa [columns, unlessNone] using h
  · simp [columns, unlessNone]

theorem Message.toJson_eq (m : Message) : m.toJson = Column.object columns m := by
  obtain ⟨id, method, result, error, params⟩ := m
  cases id <;> cases method <;> cases result <;> cases error <;> cases params <;> rfl

theorem Message.restores (depth : Nat) : Restores (depth + 1) decoder toJson := by
  rw [funext toJson_eq]
  refine Column.record_restores columns_lawful blank ?_
  have hvalue := Decoder.option_faithful Decoder.value_stable Decoder.value_agrees
  have hstring := Decoder.option_faithful Decoder.string_stable Decoder.string_agrees
  intro c hc
  simp only [columns, List.mem_cons, List.not_mem_nil, or_false] at hc
  rcases hc with rfl | rfl | rfl | rfl | rfl
  · exact Column.unlessNone_restoring (hvalue.restores depth) rfl
  · exact Column.unlessNone_restoring (hstring.restores depth) rfl
  · exact Column.unlessNone_restoring (hvalue.restores depth) rfl
  · exact Column.unlessNone_restoring (hvalue.restores depth) rfl
  · exact Column.unlessNone_restoring (hvalue.restores depth) rfl

def Request.columns : List (Column Request) :=
  [always true "jsonrpc" .string .string (·.version) fun r v => { r with version := v },
   always true "method" .string .string (·.method) fun r v => { r with method := v },
   always true "params" .value (fun v => v) (·.params) fun r v => { r with params := v },
   always true "id" .unsigned (fun n => .integer n) (·.id) fun r v => { r with id := v }]

theorem Request.columns_lawful : Column.Lawful columns := by
  constructor
  · simp [columns, always]
  · simp [columns, always, Column.Apart]
  · rintro ⟨⟩ ⟨⟩ h
    simpa [columns, always] using h
  · simp [columns, always]

theorem Request.restores (depth : Nat) : Restores (depth + 1) decoder toJson := by
  refine Column.record_restores columns_lawful ⟨"", "", .null, 0⟩ ?_
  have hstring := Decoder.string_stable.faithful Decoder.string_agrees
  have hvalue := Decoder.value_stable.faithful Decoder.value_agrees
  have hunsigned := Decoder.unsigned_stable.faithful Decoder.unsigned_agrees
  intro c hc
  simp only [columns, List.mem_cons, List.not_mem_nil, or_false] at hc
  rcases hc with rfl | rfl | rfl | rfl
  · exact Column.faithful_restoring hstring ⟨.string "", Nat.zero_le depth⟩ rfl
  · exact Column.faithful_restoring hstring ⟨.string "", Nat.zero_le depth⟩ rfl
  · exact Column.faithful_restoring hvalue ⟨.null, Nat.zero_le depth⟩ rfl
  · exact Column.faithful_restoring hunsigned ⟨.integer 0 (by decide), Nat.zero_le depth⟩ rfl

def Change.columns : List (Column Change) :=
  [always false "id" (.lenient (.option .signed)) (orNull .integer) (·.id)
     fun c v => { c with id := v },
   always false "state" (.lenient (.option PlaybackState.decoder)) (orNull PlaybackState.toJson)
     (·.state) fun c v => { c with state := v },
   always false "duration" (.lenient (.option .double)) (orNull .double) (·.duration)
     fun c v => { c with duration := v },
   always false "media" (.option .value) (orNull fun v => v) (·.media)
     fun c v => { c with media := v },
   always false "info" (.option .value) (orNull fun v => v) (·.info)
     fun c v => { c with info := v },
   always false "options" (.option .value) (orNull fun v => v) (·.options)
     fun c v => { c with options := v },
   always false "next" (.lenient (.option .signed)) (orNull .integer) (·.next)
     fun c v => { c with next := v },
   always false "volume" (.option .value) (orNull fun v => v) (·.volume)
     fun c v => { c with volume := v },
   always false "level" (.lenient (.option .signed)) (orNull .integer) (·.level)
     fun c v => { c with level := v },
   always false "message" (.option .value) (orNull fun v => v) (·.message)
     fun c v => { c with message := v }]

theorem Change.columns_lawful : Column.Lawful columns := by
  constructor
  · simp [columns, always]
  · simp [columns, always, Column.Apart]
  · rintro ⟨⟩ ⟨⟩ h
    simpa [columns, always] using h
  · simp [columns, always]

theorem Change.toJson_eq (c : Change) : c.toJson = Column.object columns c := by
  obtain ⟨id, state, duration, media, info, options, next, volume, level, message⟩ := c
  cases media <;> cases info <;> cases options <;> cases volume <;> cases message <;> rfl

theorem PlaybackState.stable : decoder.Stable toJson := Decoder.ofString_stable text_ofText

theorem PlaybackState.travelsByName : TravelsByName decoder toJson .other := by
  refine travelsByName_of_inverse text_ofText (fun _ => rfl) ?_
  intro a ha
  cases a with
  | other s => exact absurd rfl (ha s)
  | _ => rfl

theorem Change.restores (depth : Nat) : Restores (depth + 1) decoder toJson := by
  rw [funext toJson_eq]
  refine Column.record_restores columns_lawful blank ?_
  have hvalue := Decoder.option_faithful Decoder.value_stable Decoder.value_agrees
  have hsigned := Decoder.lenient_faithful Decoder.signed_stable
  have hstate := Decoder.lenient_faithful PlaybackState.stable
  have hdouble := Decoder.lenient_faithful Decoder.double_stable
  intro c hc
  simp only [columns, List.mem_cons, List.not_mem_nil, or_false] at hc
  rcases hc with rfl | rfl | rfl | rfl | rfl | rfl | rfl | rfl | rfl | rfl
  · exact Column.orNull_restoring hsigned rfl rfl
  · exact Column.orNull_restoring hstate rfl rfl
  · exact Column.orNull_restoring hdouble rfl rfl
  · exact Column.orNull_restoring hvalue rfl rfl
  · exact Column.orNull_restoring hvalue rfl rfl
  · exact Column.orNull_restoring hvalue rfl rfl
  · exact Column.orNull_restoring hsigned rfl rfl
  · exact Column.orNull_restoring hvalue rfl rfl
  · exact Column.orNull_restoring hsigned rfl rfl
  · exact Column.orNull_restoring hvalue rfl rfl

def Position.columns : List (Column Position) :=
  [always false "position" (.option .double) (orNull .double) (·.position)
     fun p v => { p with position := v },
   always false "duration" (.option .double) (orNull .double) (·.duration)
     fun p v => { p with duration := v }]

theorem Position.columns_lawful : Column.Lawful columns := by
  constructor
  · simp [columns, always]
  · simp [columns, always, Column.Apart]
  · rintro ⟨⟩ ⟨⟩ h
    simpa [columns, always] using h
  · simp [columns, always]

theorem Position.restores (depth : Nat) : Restores (depth + 1) decoder toJson := by
  refine Column.record_restores columns_lawful ⟨none, none⟩ ?_
  have hdouble := Decoder.option_faithful Decoder.double_stable Decoder.double_agrees
  intro c hc
  simp only [columns, List.mem_cons, List.not_mem_nil, or_false] at hc
  rcases hc with rfl | rfl
  · exact Column.orNull_restoring hdouble rfl rfl
  · exact Column.orNull_restoring hdouble rfl rfl

def Window.columns : List (Column Window) :=
  [always true "maxitems" (.below bound32) (fun n => .integer n) (·.maxitems)
     fun w v => { w with maxitems := v },
   always true "first" .unsigned (fun n => .integer n) (·.first) fun w v => { w with first := v }]

theorem Window.columns_lawful : Column.Lawful columns := by
  constructor
  · simp [columns, always]
  · simp [columns, always, Column.Apart]
  · rintro ⟨⟩ ⟨⟩ h
    simpa [columns, always] using h
  · simp [columns, always]

theorem Window.restores (depth : Nat) : Restores (depth + 1) decoder toJson := by
  refine Column.record_restores columns_lawful ⟨0, 0⟩ ?_
  have hbelow := (Decoder.below_stable bound32).faithful (Decoder.below_agrees bound32)
  have hunsigned := Decoder.unsigned_stable.faithful Decoder.unsigned_agrees
  intro c hc
  simp only [columns, List.mem_cons, List.not_mem_nil, or_false] at hc
  rcases hc with rfl | rfl
  · exact Column.faithful_restoring hbelow ⟨.integer 0 (by decide), Nat.zero_le depth⟩ rfl
  · exact Column.faithful_restoring hunsigned ⟨.integer 0 (by decide), Nat.zero_le depth⟩ rfl

def WindowQuery.columns : List (Column WindowQuery) :=
  [always false "maxitems" (.option (.below bound32)) (orNull fun n => .integer n) (·.maxitems)
     fun q v => { q with maxitems := v },
   always false "first" (.option .unsigned) (orNull fun n => .integer n) (·.first)
     fun q v => { q with first := v },
   always false "id" (.option .unsigned) (orNull fun n => .integer n) (·.id)
     fun q v => { q with id := v }]

theorem WindowQuery.columns_lawful : Column.Lawful columns := by
  constructor
  · simp [columns, always]
  · simp [columns, always, Column.Apart]
  · rintro ⟨⟩ ⟨⟩ h
    simpa [columns, always] using h
  · simp [columns, always]

theorem WindowQuery.restores (depth : Nat) : Restores (depth + 1) decoder toJson := by
  refine Column.record_restores columns_lawful blank ?_
  have hbelow :=
    Decoder.option_faithful (Decoder.below_stable bound32) (Decoder.below_agrees bound32)
  have hunsigned := Decoder.option_faithful Decoder.unsigned_stable Decoder.unsigned_agrees
  intro c hc
  simp only [columns, List.mem_cons, List.not_mem_nil, or_false] at hc
  rcases hc with rfl | rfl | rfl
  · exact Column.orNull_restoring hbelow rfl rfl
  · exact Column.orNull_restoring hunsigned rfl rfl
  · exact Column.orNull_restoring hunsigned rfl rfl

def Listing.columns : List (Column Listing) :=
  [always false "playlist" (.list .value) (fun vs => .array (vs.map fun v => v)) (·.playlist)
     fun l v => { l with playlist := v },
   always false "count" .unsigned (fun n => .integer n) (·.count) fun l v => { l with count := v }]

theorem Listing.columns_lawful : Column.Lawful columns := by
  constructor
  · simp [columns, always]
  · simp [columns, always, Column.Apart]
  · rintro ⟨⟩ ⟨⟩ h
    simpa [columns, always] using h
  · simp [columns, always]

theorem Listing.toJson_eq (l : Listing) : l.toJson = Column.object columns l := by
  simp [toJson, Column.object, Column.member?, columns, always]

theorem Listing.restores (depth : Nat) : Restores (depth + 2) decoder toJson := by
  rw [funext toJson_eq]
  refine Column.record_restores columns_lawful ⟨[], 0⟩ ?_
  have hvalue := Decoder.value_stable.faithful Decoder.value_agrees
  have hunsigned := Decoder.unsigned_stable.faithful Decoder.unsigned_agrees
  intro c hc
  simp only [columns, List.mem_cons, List.not_mem_nil, or_false] at hc
  rcases hc with rfl | rfl
  · exact Column.list_restoring (hvalue.restores depth) rfl
  · exact Column.faithful_restoring hunsigned ⟨.integer 0 (by decide), Nat.zero_le _⟩ rfl

def EventDescriptor.columns : List (Column EventDescriptor) :=
  [always true "method" .string .string (·.method) fun e v => { e with method := v }]

theorem EventDescriptor.columns_lawful : Column.Lawful columns := by
  constructor
  · simp [columns, always]
  · simp [columns, always, Column.Apart]
  · rintro ⟨⟩ ⟨⟩ h
    simpa [columns, always] using h
  · simp [columns, always]

theorem EventDescriptor.restores (depth : Nat) : Restores (depth + 1) decoder toJson := by
  refine Column.record_restores columns_lawful ⟨""⟩ ?_
  have hstring := Decoder.string_stable.faithful Decoder.string_agrees
  intro c hc
  simp only [columns, List.mem_cons, List.not_mem_nil, or_false] at hc
  rcases hc with rfl
  exact Column.faithful_restoring hstring ⟨.string "", Nat.zero_le depth⟩ rfl

theorem Action.stable : decoder.Stable toJson := Decoder.ofString_stable method_ofMethod

theorem Action.travelsByName : TravelsByName decoder toJson .other := by
  refine travelsByName_of_inverse method_ofMethod (fun _ => rfl) ?_
  intro a ha
  cases a with
  | other s => exact absurd rfl (ha s)
  | _ => rfl

def ActionDescriptor.columns : List (Column ActionDescriptor) :=
  [always true "method" Action.decoder Action.toJson (·.method) fun a v => { a with method := v },
   unlessNone "params" (.option .value) (fun v => v) (·.params) fun a v => { a with params := v }]

theorem ActionDescriptor.columns_lawful : Column.Lawful columns := by
  constructor
  · simp [columns, always, unlessNone]
  · simp [columns, always, unlessNone, Column.Apart]
  · rintro ⟨⟩ ⟨⟩ h
    simpa [columns, always, unlessNone] using h
  · simp [columns, always, unlessNone]

theorem ActionDescriptor.toJson_eq (a : ActionDescriptor) : a.toJson = Column.object columns a := by
  obtain ⟨method, params⟩ := a
  cases params <;> rfl

theorem ActionDescriptor.restores (depth : Nat) : Restores (depth + 1) decoder toJson := by
  rw [funext toJson_eq]
  refine Column.record_restores columns_lawful ⟨.other "", none⟩ ?_
  have hmethod := Action.stable.faithful (Decoder.ofString_agrees Action.ofMethod)
  have hvalue := Decoder.option_faithful Decoder.value_stable Decoder.value_agrees
  intro c hc
  simp only [columns, List.mem_cons, List.not_mem_nil, or_false] at hc
  rcases hc with rfl | rfl
  · exact Column.faithful_restoring hmethod ⟨.string "", Nat.zero_le depth⟩ (by decide)
  · exact Column.unlessNone_restoring (hvalue.restores depth) rfl

def Descriptor.columns : List (Column Descriptor) :=
  [always false "events" (.list EventDescriptor.decoder)
     (fun es => .array (es.map EventDescriptor.toJson)) (·.events)
     fun d v => { d with events := v },
   always false "actions" (.list ActionDescriptor.decoder)
     (fun as => .array (as.map ActionDescriptor.toJson)) (·.actions)
     fun d v => { d with actions := v }]

theorem Descriptor.columns_lawful : Column.Lawful columns := by
  constructor
  · simp [columns, always]
  · simp [columns, always, Column.Apart]
  · rintro ⟨⟩ ⟨⟩ h
    simpa [columns, always] using h
  · simp [columns, always]

theorem Descriptor.restores (depth : Nat) : Restores (depth + 3) decoder toJson := by
  refine Column.record_restores columns_lawful ⟨[], []⟩ ?_
  intro c hc
  simp only [columns, List.mem_cons, List.not_mem_nil, or_false] at hc
  rcases hc with rfl | rfl
  · exact Column.list_restoring (EventDescriptor.restores depth) rfl
  · exact Column.list_restoring (ActionDescriptor.restores depth) rfl

end Wire

namespace Bar

def Button.columns : List (Column Button) :=
  [always true "id" .string .string (·.id) fun b v => { b with id := v },
   unlessNone "glyphicon" (.option .string) .string (·.glyphicon)
     fun b v => { b with glyphicon := v },
   unlessNone "name" (.option .string) .string (·.name) fun b v => { b with name := v },
   unlessNone "click" (.option .string) .string (·.click) fun b v => { b with click := v },
   unlessNone "classes" (.option .string) .string (·.classes) fun b v => { b with classes := v }]

theorem Button.columns_lawful : Column.Lawful columns := by
  constructor
  · simp [columns, always, unlessNone]
  · simp [columns, always, unlessNone, Column.Apart]
  · rintro ⟨⟩ ⟨⟩ h
    simpa [columns, always, unlessNone] using h
  · simp [columns, always, unlessNone]

theorem Button.toJson_eq (b : Button) : b.toJson = Column.object columns b := by
  obtain ⟨id, glyphicon, name, click, classes⟩ := b
  cases glyphicon <;> cases name <;> cases click <;> cases classes <;> rfl

theorem Button.restores (depth : Nat) : Restores (depth + 1) decoder toJson := by
  rw [funext toJson_eq]
  refine Column.record_restores columns_lawful (bare "") ?_
  have hid := Decoder.string_stable.faithful Decoder.string_agrees
  have hstring := Decoder.option_faithful Decoder.string_stable Decoder.string_agrees
  intro c hc
  simp only [columns, List.mem_cons, List.not_mem_nil, or_false] at hc
  rcases hc with rfl | rfl | rfl | rfl | rfl
  · exact Column.faithful_restoring hid ⟨.string "", Nat.zero_le depth⟩ rfl
  · exact Column.unlessNone_restoring (hstring.restores depth) rfl
  · exact Column.unlessNone_restoring (hstring.restores depth) rfl
  · exact Column.unlessNone_restoring (hstring.restores depth) rfl
  · exact Column.unlessNone_restoring (hstring.restores depth) rfl

theorem ControlAction.ofWord?_word (a : ControlAction) : ofWord? a.word = some a := by
  cases a <;> decide

theorem ControlAction.restores (depth : Nat) :
    Restores depth decoder fun a => .string a.word :=
  Decoder.oneOf_restores ofWord?_word depth

def Control.columns : List (Column Control) :=
  [always true "enabled" .bool .bool (·.enabled) fun c v => { c with enabled := v },
   always true "action" ControlAction.decoder (fun a => .string a.word) (·.action)
     fun c v => { c with action := v },
   always false "groups" (.list (.list Button.decoder))
     (fun gs => .array (gs.map fun g => .array (g.map Button.toJson))) (·.groups)
     fun c v => { c with groups := v },
   always false "scripts" (.list .string) (fun ss => .array (ss.map .string)) (·.scripts)
     fun c v => { c with scripts := v }]

theorem Control.columns_lawful : Column.Lawful columns := by
  constructor
  · simp [columns, always]
  · simp [columns, always, Column.Apart]
  · rintro ⟨⟩ ⟨⟩ h
    simpa [columns, always] using h
  · simp [columns, always]

theorem Control.restores (depth : Nat) : Restores (depth + 4) decoder toJson := by
  refine Column.record_restores columns_lawful (new false .update) ?_
  have hbool := Decoder.bool_stable.faithful Decoder.bool_agrees
  have hstring := Decoder.string_stable.faithful Decoder.string_agrees
  intro c hc
  simp only [columns, List.mem_cons, List.not_mem_nil, or_false] at hc
  rcases hc with rfl | rfl | rfl | rfl
  · exact Column.faithful_restoring hbool ⟨.bool false, Nat.zero_le _⟩ rfl
  · refine Column.always_restoring (ControlAction.restores _) fun _ => ?_
    exact Decoder.oneOf_written (ControlAction.ofWord?_word .update) _
  · exact Column.list_restoring (Decoder.list_restores (Button.restores depth)) rfl
  · exact Column.list_restoring (hstring.restores _) rfl

end Bar

theorem wire_types_round_trip :
    RoundTrips Wire.Message.decoder Wire.Message.toJson ∧
      RoundTrips Wire.Request.decoder Wire.Request.toJson ∧
      RoundTrips Wire.Change.decoder Wire.Change.toJson ∧
      RoundTrips Wire.Position.decoder Wire.Position.toJson ∧
      RoundTrips Wire.Window.decoder Wire.Window.toJson ∧
      RoundTrips Wire.WindowQuery.decoder Wire.WindowQuery.toJson ∧
      RoundTrips Wire.Listing.decoder Wire.Listing.toJson ∧
      RoundTrips Wire.Descriptor.decoder Wire.Descriptor.toJson ∧
      RoundTrips Wire.ActionDescriptor.decoder Wire.ActionDescriptor.toJson ∧
      RoundTrips Wire.EventDescriptor.decoder Wire.EventDescriptor.toJson ∧
      RoundTrips Bar.Button.decoder Bar.Button.toJson ∧
      RoundTrips Bar.Control.decoder Bar.Control.toJson ∧
      TravelsByName Wire.PlaybackState.decoder Wire.PlaybackState.toJson .other ∧
      TravelsByName Wire.Action.decoder Wire.Action.toJson .other :=
  ⟨roundTrips_of_restores (Wire.Message.restores _),
    roundTrips_of_restores (Wire.Request.restores _),
    roundTrips_of_restores (Wire.Change.restores _),
    roundTrips_of_restores (Wire.Position.restores _),
    roundTrips_of_restores (Wire.Window.restores _),
    roundTrips_of_restores (Wire.WindowQuery.restores _),
    roundTrips_of_restores (Wire.Listing.restores _),
    roundTrips_of_restores (Wire.Descriptor.restores _),
    roundTrips_of_restores (Wire.ActionDescriptor.restores _),
    roundTrips_of_restores (Wire.EventDescriptor.restores _),
    roundTrips_of_restores (Bar.Button.restores _),
    roundTrips_of_restores (Bar.Control.restores _), Wire.PlaybackState.travelsByName,
    Wire.Action.travelsByName⟩

def changeArray : String :=
  "[7, \"rewind\", 0.5, null, \x7b\"b\": 1, \"a\": [true]\x7d, null, \"next\"]"

def changeText : String :=
  "\x7b\"id\":7,\"state\":\"rewind\",\"duration\":0.5,\"media\":null," ++
    "\"info\":\x7b\"a\":[true],\"b\":1\x7d,\"options\":null,\"next\":null,\"volume\":null," ++
    "\"level\":null,\"message\":null\x7d"

theorem change_array_round_trips : ∃ c, Wire.Change.decoder.parse changeArray = .ok c ∧
    c.state = some (.other "rewind") ∧ c.toJson.text = changeText ∧ c.toJson.IsCarried ∧
    Wire.Change.decoder.parse changeText = .ok c := by
  have hfields : (Wire.Change.decoder.parse changeArray).toOption.map (fun c =>
      (c.state, c.toJson.text, c.toJson.doubles.all Json.readsBack)) =
        some (some (.other "rewind"), changeText, true) := by decide +kernel
  cases hparse : Wire.Change.decoder.parse changeArray with
  | error why =>
    rw [hparse] at hfields
    cases hfields
  | ok c =>
    simp only [hparse, Except.toOption, Option.map_some, Option.some.injEq, Prod.mk.injEq,
      List.all_eq_true] at hfields
    obtain ⟨hstate, htext, hdoubles⟩ := hfields
    have hcarried : c.toJson.IsCarried := fun x hx => (Json.readsBack_iff x).mp (hdoubles x hx)
    obtain ⟨-, -, hchange, -⟩ := wire_types_round_trip
    refine ⟨c, rfl, hstate, htext, hcarried, ?_⟩
    rw [← htext]
    exact (hchange changeArray c hparse hcarried).1

end MediaRemote
