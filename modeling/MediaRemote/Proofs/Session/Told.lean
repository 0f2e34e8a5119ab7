import MediaRemote.Proofs.Session.Playback
import MediaRemote.Proofs.Wire.Payloads

namespace MediaRemote.Session

open Json (Value)
open Wire (Descriptor)

variable {ρ : Type}

theorem filterMap_toList {α β γ : Type} (f : β → Option γ) (g : α → β) (o : Option α) :
    (o.map g).toList.filterMap f = (o.bind fun a => f (g a)).toList := by
  cases o with
  | none => rfl
  | some a => cases h : f (g a) <;> simp [h]

def Content.options? : Content → Option Value
  | .options payload => some payload
  | .change c => c.options
  | _ => none

/-- Only slots for options and for changes take in options. -/
theorem Slot.options_sorted {slot : Slot} {payload : Value} (hp : payload.Sorted)
    {content : Content} (h : slot.read payload = some content) {options : Value}
    (ho : content.options? = some options) : options.Sorted := by
  cases slot with
  | options =>
    obtain rfl := Option.some.inj h
    obtain rfl : payload = options := Option.some.inj ho
    exact hp
  | change =>
    obtain ⟨c, hc, rfl⟩ := Option.map_eq_some_iff.mp h
    exact Wire.Change.options_sorted hp hc options ho
  | filter | setInfo =>
    obtain rfl := Option.some.inj h
    cases ho
  | capabilities | state | next | list | info | volume | position =>
    obtain ⟨_, -, rfl⟩ := Option.map_eq_some_iff.mp h
    cases ho

/-- What a received message brings was read. -/
theorem Rpc.receive_sorted {r r' : Rpc ρ} {text : String} {i : Inbound ρ}
    (h : r.receive text = .ok (i, r')) : i.message.Sorted := by
  unfold receive at h
  split at h
  · cases h
  · rename_i message hparse
    have hsorted := Wire.Message.sorted_of_parse hparse
    split at h
    · cases h
      exact hsorted
    · cases h
      exact hsorted

namespace Player

namespace Moment

variable {m : Moment ρ}

/-- The events of a content, with others by the way. -/
theorem told_of_content {content : Content} (hc : m.content? = some content)
    (hl : m.before.observer = .live) :
    ∃ before after, m.events = before ++ eventsIn (m.deedOf content).gives ++ after ∧
      ∀ e ∈ before ++ after, e.isAside = true := by
  obtain ⟨-, -, before, after, htold, haside⟩ := course_of_content hc
  rw [hl, heard_live] at htold
  exact ⟨before, after, htold, haside⟩

theorem content_of_descriptor {d : Descriptor} (hd : m.descriptor? = some d)
    {before : Option Descriptor} (hn : Negotiated before m.before) :
    m.content? = some (.capabilities d) := by
  obtain ⟨i, hi, hd⟩ := Option.bind_eq_some_iff.mp hd
  unfold descriptorIn at hd
  split at hd
  · rename_i hm
    obtain ⟨payload, hpayload, hview⟩ := Option.bind_eq_some_iff.mp hd
    have hslot : m.before.routes.resolve "capabilities" = some .capabilities := by
      rw [hn.routes, resolve_routesFor]
      rfl
    simp [content?, hi, contentOf, hm.1, hm.2, hslot, hpayload, Slot.read, hview]
  · cases hd

/-- Options are told once, as their names. -/
theorem told_of_options {content : Content} (hc : m.content? = some content)
    (hl : m.before.observer = .live) {options : Value} (ho : content.options? = some options) :
    m.events.filterMap Event.options? = [Wire.optionNames options] := by
  obtain ⟨before, after, htold, haside⟩ := told_of_content hc hl
  have hnone {told : List Event} (h : ∀ e ∈ told, e.isAside = true) :
      told.filterMap Event.options? = [] :=
    List.filterMap_eq_nil_iff.mpr fun e he => (Event.unspoken_of_aside (h e he)).options
  have hgives : (eventsIn (m.deedOf content).gives).filterMap Event.options? =
      [Wire.optionNames options] := by
    cases content with
    | options payload =>
      obtain rfl : payload = options := Option.some.inj ho
      rfl
    | change c =>
      have ho : c.options = some options := ho
      simp [deedOf, deed, changeDeed, changeTold, filterMap_toList,
        Wire.Change.normalizedOptions, ho, -List.map_append]
    | _ => cases ho
  rw [htold, List.filterMap_append, List.filterMap_append, hgives,
    hnone fun e he => haside e (List.mem_append_left after he),
    hnone fun e he => haside e (List.mem_append_right before he)]
  rfl

/-- The keys of options that are brought are in order. -/
theorem options_sorted {content : Content} (hc : m.content? = some content) {options : Value}
    (ho : content.options? = some options) : options.Sorted := by
  obtain ⟨i, hi, hc⟩ := Option.bind_eq_some_iff.mp hc
  have hmessage : i.message.Sorted := by
    unfold inbound? at hi
    split at hi
    · obtain ⟨⟨j, rpc⟩, hr, rfl⟩ := Option.map_eq_some_iff.mp hi
      cases hreceive : m.before.rpc.receive ‹String› with
      | error fault => simp [hreceive, Except.toOption] at hr
      | ok out =>
        obtain rfl : out = (j, rpc) := by simpa [hreceive, Except.toOption] using hr
        exact Rpc.receive_sorted hreceive
    · cases hi
  unfold contentOf at hc
  split at hc
  · obtain ⟨slot, -, hc⟩ := Option.bind_eq_some_iff.mp hc
    obtain ⟨payload, hpayload, hread⟩ := Option.bind_eq_some_iff.mp hc
    exact Slot.options_sorted (hmessage.payload hpayload) hread ho
  · cases hc

end Moment

theorem before_of_history (run : Run ρ) : ∀ m ∈ run.history,
    (∃ d, Negotiated d m.before) ∧ m.before.observer = run.observer := by
  refine History.before_of_moments
    (I := fun p => (∃ d, Negotiated d p) ∧ p.observer = run.observer) ?_ ?_ run.calls
  · rintro p now c ⟨⟨d, hn⟩, ho⟩
    exact ⟨⟨_, hn.step now c⟩, (perform_make p now c).observer.trans ho⟩
  · exact ⟨⟨none, rfl, rfl⟩, rfl⟩

/-- Whoever listens is told the actions of every descriptor that comes into force. -/
theorem announced_of_descriptor {run : Run ρ} {m : Moment ρ} (hm : m ∈ run.history)
    {d : Descriptor} (hd : m.descriptor? = some d) (hl : run.observer = .live) :
    .actionsAnnounced d.actions ∈ m.events := by
  obtain ⟨⟨before, hn⟩, ho⟩ := before_of_history run m hm
  obtain ⟨front, back, htold, -⟩ :=
    Moment.told_of_content (Moment.content_of_descriptor hd hn) (ho.trans hl)
  have hgives : (m.deedOf (.capabilities d)).gives = termsTold d := rfl
  rw [htold, hgives, eventsIn_termsTold]
  simp

end Player
end MediaRemote.Session
