import MediaRemote.Proofs.Session.Numbering
import MediaRemote.Proofs.Wire.Messages

namespace MediaRemote.Session.Rpc

open Wire (Message)
open Json (IsObjectDocument)

variable {ρ : Type}

theorem perform_dropped {r : Rpc ρ} {text : String} {fault : Json.Fault}
    (h : Message.decoder.parse text = .error fault) :
    r.perform (.receive text) = (.dropped fault, r) := by
  simp [perform, receive, h]

theorem perform_received {r : Rpc ρ} {text : String} {m : Message}
    (h : Message.decoder.parse text = .ok m) :
    ∃ i, r.perform (.receive text) = (.received i, r.without m.requestId) := by
  cases hr : r.receive text with
  | error fault => simp [receive_error hr] at h
  | ok out =>
    obtain ⟨i, r'⟩ := out
    obtain ⟨m', hm, rfl⟩ := receive_ok hr
    obtain rfl : m' = m := by simpa [hm] using h
    exact ⟨i, by simp [perform, hr]⟩

/-- An array of at most five elements whose second is a string or null is taken for the message with
these fields. Every other text that is not one object is dropped and changes nothing. -/
theorem frames_without_an_object {text : String} (h : ¬ IsObjectDocument text.toList) (r : Rpc ρ) :
    ((¬ ∃ items, Json.parse text = .ok (.array items) ∧ Message.positional items = true) →
      ∃ fault, r.perform (.receive text) = (.dropped fault, r)) ∧
    ∀ items, Json.parse text = .ok (.array items) → Message.positional items = true →
      ∃ i, r.perform (.receive text) =
        (.received i, r.without (Message.ofItems items).requestId) := by
  constructor
  · intro hno
    cases hm : Message.decoder.parse text with
    | error fault => exact ⟨fault, perform_dropped hm⟩
    | ok m =>
      obtain ⟨items, hp, hpos, -⟩ := (Message.parse_no_object h).mp hm
      exact absurd ⟨items, hp, hpos⟩ hno
  · intro items hp hpos
    exact perform_received ((Message.parse_no_object h).mpr ⟨items, hp, hpos, rfl⟩)

/-- An array may answer a request. -/
theorem array_answers_a_request :
    ¬ IsObjectDocument "[0]".toList ∧
      ∃ i, (⟨1, true, [⟨.new 0 "status" .null, some ()⟩], []⟩ : Rpc Unit).perform (.receive "[0]") =
        (.received i, ⟨1, true, [], []⟩) := by
  have hno : ¬ IsObjectDocument "[0]".toList := by
    intro h
    obtain ⟨t, ht⟩ := h.starts
    simp [Json.skipBlanks, Json.isBlank] at ht
  refine ⟨hno, ?_⟩
  exact (frames_without_an_object hno _).2 [.integer 0] (by rfl) (by rfl)

end MediaRemote.Session.Rpc
