import MediaRemote.Proofs.Json.Records
import MediaRemote.Wire.Capabilities

namespace MediaRemote.Wire

open Json (Value Decoder)

namespace Action

theorem ofMethod_method {a : Action} (h : a.isOther = false) : ofMethod a.method = a := by
  cases a with
  | other m => cases h
  | _ => rfl

def Normal (a : Action) : Prop := a = ofMethod a.method

theorem normal_ofMethod (m : String) : (ofMethod m).Normal := by
  unfold Normal
  rw [method_ofMethod]

end Action

theorem ActionDescriptor.normal_of_view {v : Value} {a : ActionDescriptor}
    (h : decoder.view v = some a) : a.method.Normal := by
  refine Decoder.record_view_keeps (P := fun a => a.method.Normal) ?_ (Action.normal_ofMethod "") h
  intro f hf v x x' hx hv
  simp only [List.mem_cons, List.not_mem_nil, or_false] at hf
  rcases hf with rfl | rfl
  · obtain ⟨a, ha, rfl⟩ := Option.map_eq_some_iff.mp hv
    obtain ⟨m, -, rfl⟩ := Option.map_eq_some_iff.mp ha
    exact Action.normal_ofMethod m
  · obtain ⟨params, -, rfl⟩ := Option.map_eq_some_iff.mp hv
    exact hx

theorem Descriptor.actions_normal {v : Value} {d : Descriptor} (h : decoder.view v = some d) :
    ∀ a ∈ d.actions, a.method.Normal := by
  refine Decoder.record_view_keeps (P := fun d => ∀ a ∈ d.actions, a.method.Normal) ?_ (by simp) h
  intro f hf v x x' hx hv
  simp only [List.mem_cons, List.not_mem_nil, or_false] at hf
  rcases hf with rfl | rfl
  · obtain ⟨events, -, rfl⟩ := Option.map_eq_some_iff.mp hv
    exact hx
  · obtain ⟨actions, hactions, rfl⟩ := Option.map_eq_some_iff.mp hv
    intro a ha
    simp only [Decoder.list] at hactions
    split at hactions
    · rename_i items
      have hm : some a ∈ items.map ActionDescriptor.decoder.view := by
        rw [Json.mapM_eq_some.mp hactions]
        exact List.mem_map_of_mem ha
      obtain ⟨item, -, hitem⟩ := List.mem_map.mp hm
      exact ActionDescriptor.normal_of_view hitem
    · cases hactions

end MediaRemote.Wire
