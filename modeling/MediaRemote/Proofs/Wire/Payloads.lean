import MediaRemote.Proofs.Json.Written
import MediaRemote.Proofs.Wire.Messages

namespace MediaRemote

open Json (Value Decoder)

theorem Json.Value.Sorted.items {v : Value} (h : v.Sorted) : ∀ w ∈ v.items, w.Sorted := by
  cases h with
  | array items each => exact each
  | object members increasing each =>
    intro w hw
    obtain ⟨m, hm, rfl⟩ := List.mem_map.mp hw
    exact each m hm
  | _ => simp [Value.items]

theorem Json.Value.eq_of_present {v w : Value} (h : v.present = some w) : v = w := by
  cases v with
  | null => cases h
  | _ => exact Option.some.inj h

namespace Wire

namespace Message

def Sorted (m : Message) : Prop :=
  (∀ v, m.result = some v → v.Sorted) ∧ ∀ v, m.params = some v → v.Sorted

theorem fields_keep_sorted : ∀ f ∈ fields, f.KeepsFrom Value.Sorted Sorted := by
  intro f hf v m m' hsorted hm h
  obtain ⟨hresult, hparams⟩ := hm
  have hv {o : Option Value} (ho : (Decoder.option .value).view v = some o) :
      ∀ w, o = some w → w.Sorted := by
    rw [view_value, Option.some.injEq] at ho
    intro w hw
    exact Value.eq_of_present (ho.trans hw) ▸ hsorted
  simp only [fields, List.mem_cons, List.not_mem_nil, or_false] at hf
  rcases hf with rfl | rfl | rfl | rfl | rfl
  all_goals obtain ⟨o, ho, rfl⟩ := Option.map_eq_some_iff.mp h
  · exact ⟨hresult, hparams⟩
  · exact ⟨hresult, hparams⟩
  · exact ⟨hv ho, hparams⟩
  · exact ⟨hresult, hparams⟩
  · exact ⟨hresult, hv ho⟩

theorem sorted_of_parse {text : String} {m : Message} (h : decoder.parse text = .ok m) :
    m.Sorted := by
  obtain ⟨r, hread, -⟩ := Decoder.document_eq_ok.mp h
  have hblank : blank.Sorted := ⟨nofun, nofun⟩
  refine Decoder.record_read_keeps (fun f hf => ?_) hblank hread
  exact (fields_open f hf).1.retains (fun _ _ _ => Json.value_sorted) (fields_keep_sorted f hf)

theorem Sorted.payload {m : Message} (h : m.Sorted) {v : Value} (hv : m.payload = some v) :
    v.Sorted := by
  have hpresent {o : Option Value} (ho : o.bind Value.present = some v) : o = some v := by
    obtain ⟨w, hw, hv⟩ := Option.bind_eq_some_iff.mp ho
    rw [hw, Value.eq_of_present hv]
  unfold Message.payload at hv
  cases hr : m.result.bind Value.present with
  | some w =>
    obtain rfl : w = v := by simpa [hr] using hv
    exact h.1 w (hpresent hr)
  | none => exact h.2 v (hpresent (by simpa [hr] using hv))

end Message

theorem Change.options_sorted {payload : Value} (hp : payload.Sorted) {c : Change}
    (h : decoder.view payload = some c) : ∀ v, c.options = some v → v.Sorted := by
  refine Decoder.record_view_keeps_from (P := fun c => ∀ v, c.options = some v → v.Sorted) ?_
    nofun hp.items h
  intro f hf v c c' hv hc hview
  simp only [fields, List.mem_cons, List.not_mem_nil, or_false] at hf
  rcases hf with rfl | rfl | rfl | rfl | rfl | rfl | rfl | rfl | rfl | rfl
  all_goals obtain ⟨o, ho, rfl⟩ := Decoder.Field.optional_view.mp hview
  case inr.inr.inr.inr.inr.inl =>
    rw [Message.view_value, Option.some.injEq] at ho
    intro w hw
    exact Value.eq_of_present (ho.trans hw) ▸ hv
  all_goals exact hc

end Wire
end MediaRemote
